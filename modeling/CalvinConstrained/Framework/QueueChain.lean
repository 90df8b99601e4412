import CalvinConstrained.Framework.TentativeQueue

namespace CalvinConstrained

namespace TentativeQueue

variable {α : Type*}

/-- The oldest item goes to another queue that has room for it. -/
def moveTo (a b : TentativeQueue α) : TentativeQueue α × TentativeQueue α :=
  match a.items with
  | [] => (a,b)
  | x::_ => if b.items.length<b.cap then (a.peek.2.commit,(b.write x).2) else (a,b)

theorem moveTo_nil {a b : TentativeQueue α} (h : a.items=[]) : a.moveTo b=(a,b) := by
  rw [moveTo,h]

theorem moveTo_full {a b : TentativeQueue α} (h : ¬b.items.length<b.cap) : a.moveTo b=(a,b) := by
  unfold moveTo
  split
  · rfl
  · rw [if_neg h]

theorem moveTo_cons {a b : TentativeQueue α} {x : α} {xs : List α} (h : a.items=x::xs)
    (hroom : b.items.length<b.cap) : a.moveTo b=(a.peek.2.commit,(b.write x).2) := by
  rw [moveTo,h]
  exact if_pos hroom

/-- An item that is handed out and released at once. -/
theorem peek_commit {a : TentativeQueue α} {x : α} {xs : List α} (h : a.items=x::xs)
    (hp : a.peeked=0) :
    a.peek.2.commit.items=xs ∧ a.peek.2.commit.peeked=0 ∧ a.peek.2.commit.total=a.total := by
  refine ⟨?_,?_,by rw [total_commit,total_peek]⟩ <;> simp [peek,commit,hp,h]

theorem write_room {b : TentativeQueue α} (x : α) (hroom : b.items.length<b.cap) :
    (b.write x).2.items=b.items++[x] ∧ (b.write x).2.peeked=b.peeked ∧
      (b.write x).2.total=b.total+1 := by
  simp [write,hroom,total,Nat.add_assoc]

theorem write_full {b : TentativeQueue α} (x : α) (h : ¬b.items.length<b.cap) :
    (b.write x).2=b := by
  rw [write,dif_neg h]

theorem write_peeked (b : TentativeQueue α) (x : α) : (b.write x).2.peeked=b.peeked := by
  unfold write
  split <;> rfl

/-- A move keeps the order: what leaves one queue is the last of the other. -/
theorem moveTo_items {a : TentativeQueue α} (b : TentativeQueue α) (hp : a.peeked=0) :
    (a.moveTo b).2.items++(a.moveTo b).1.items=b.items++a.items := by
  cases h : a.items with
  | nil => rw [moveTo_nil h,h]
  | cons x xs =>
    by_cases hroom : b.items.length<b.cap
    · rw [moveTo_cons h hroom,(write_room x hroom).1,(peek_commit h hp).1]
      simp
    · rw [moveTo_full hroom,h]

theorem moveTo_peeked {a : TentativeQueue α} (b : TentativeQueue α) (hp : a.peeked=0) :
    (a.moveTo b).1.peeked=0 ∧ (a.moveTo b).2.peeked=b.peeked := by
  cases h : a.items with
  | nil => exact (moveTo_nil (b := b) h).symm ▸ ⟨hp,rfl⟩
  | cons x xs =>
    by_cases hroom : b.items.length<b.cap
    · rw [moveTo_cons h hroom]
      exact ⟨(peek_commit h hp).2.1,(write_room x hroom).2.1⟩
    · rw [moveTo_full hroom]
      exact ⟨hp,rfl⟩

/-- What a queue has ever accepted grows by what the other has to give. -/
theorem moveTo_total {a : TentativeQueue α} (b : TentativeQueue α) (hp : a.peeked=0) :
    (a.moveTo b).1.total=a.total ∧
      (a.moveTo b).2.total+(a.moveTo b).1.items.length=b.total+a.items.length := by
  cases h : a.items with
  | nil =>
    rw [moveTo_nil h,h]
    exact ⟨rfl,rfl⟩
  | cons x xs =>
    by_cases hroom : b.items.length<b.cap
    · rw [moveTo_cons h hroom,(peek_commit h hp).1,(write_room x hroom).2.2]
      refine ⟨(peek_commit h hp).2.2,?_⟩
      simp only [List.length_cons]
      omega
    · rw [moveTo_full hroom,h]
      exact ⟨rfl,rfl⟩

end TentativeQueue

namespace QueueChain

variable {α β γ : Type*}

/-- A step between the `k`-th item of a row and the next, which it takes from. -/
def stepAt (f : β → β → β × β) : Nat → List β → List β
  | 0,b::a::l => (f a b).2::(f a b).1::l
  | k+1,b::l => b::stepAt f k l
  | _,l => l

/-- A change of the item at the start of a row, which is its last. -/
def atStart (f : β → β) : List β → List β
  | [] => []
  | [a] => [f a]
  | b::a::l => b::atStart f (a::l)

/-- Everything in a row of queues, oldest first. Each queue takes its items from the next. -/
def held (qs : List (TentativeQueue α)) : List α := qs.flatMap TentativeQueue.items

/-- Only the first queue may have handed items out. -/
def Ready (qs : List (TentativeQueue α)) : Prop := ∀ q ∈ qs.tail, q.peeked=0

/-- No queue accepts `limit` items when everything behind it arrives, and `n` more. -/
def Fits (limit n : Nat) : List (TentativeQueue α) → Prop
  | [] => True
  | q::qs => q.total+(held qs).length+n<limit ∧ Fits limit n qs

theorem held_cons (q : TentativeQueue α) (qs : List (TentativeQueue α)) :
    held (q::qs)=q.items++held qs := rfl

theorem Ready.tail {q : TentativeQueue α} {qs : List (TentativeQueue α)} (h : Ready (q::qs)) :
    Ready qs := fun r hr => h r (List.mem_of_mem_tail hr)

theorem Fits.last {limit n : Nat} {q : TentativeQueue α} {qs : List (TentativeQueue α)}
    (h : Fits limit n qs) (hlast : qs.getLast?=some q) : q.total+n<limit := by
  induction qs with
  | nil => cases hlast
  | cons b qs ih =>
    cases qs with
    | nil =>
      obtain rfl : b=q := Option.some.inj hlast
      exact h.1
    | cons a qs => exact ih h.2 hlast

theorem getLast?_forall₂ {R : β → γ → Prop} {bs : List β} {cs : List γ} {b : β}
    (h : List.Forall₂ R bs cs) (hb : bs.getLast?=some b) : ∃ c, cs.getLast?=some c ∧ R b c := by
  induction h with
  | nil => cases hb
  | cons hhead hrest ih =>
    cases hrest with
    | nil =>
      obtain rfl := Option.some.inj hb
      exact ⟨_,rfl,hhead⟩
    | cons _ _ => exact ih hb

/-- Rows of the same shape, item by item. -/
theorem stepAt_forall₂ {R : β → γ → Prop} {P : γ → γ → Prop} {f : β → β → β × β}
    {g : γ → γ → γ × γ} (hstep : ∀ a b a' b', R a a' → R b b' → P b' a' →
      R (f a b).1 (g a' b').1 ∧ R (f a b).2 (g a' b').2) {k : Nat} {bs : List β} {cs : List γ}
    (h : List.Forall₂ R bs cs) (hc : cs.IsChain P) :
    List.Forall₂ R (stepAt f k bs) (stepAt g k cs) := by
  induction k generalizing bs cs with
  | zero =>
    cases h with
    | nil => exact .nil
    | cons hb hrest =>
      cases hrest with
      | nil => exact .cons hb .nil
      | cons ha hrest =>
        rw [List.isChain_cons_cons] at hc
        obtain ⟨ha',hb'⟩ := hstep _ _ _ _ ha hb hc.1
        exact .cons hb' (.cons ha' hrest)
  | succ k ih =>
    cases h with
    | nil => exact .nil
    | cons hb hrest => exact .cons hb (ih hrest hc.tail)

theorem stepAt_all {f : β → β → β × β} {P : β → Prop}
    (hf : ∀ a b, P a → P b → P (f a b).1 ∧ P (f a b).2) {k : Nat} {l : List β}
    (h : ∀ b ∈ l, P b) : ∀ b ∈ stepAt f k l, P b := by
  induction k generalizing l with
  | zero =>
    match l with
    | [] => exact h
    | [_] => exact h
    | b::a::l =>
      obtain ⟨ha,hb⟩ := hf a b (h a (by simp)) (h b (by simp))
      intro c hc
      rcases List.mem_cons.mp hc with rfl | hc
      · exact hb
      · rcases List.mem_cons.mp hc with rfl | hc
        · exact ha
        · exact h c (by simp [hc])
  | succ k ih =>
    cases l with
    | nil => exact h
    | cons b l =>
      intro c hc
      rcases List.mem_cons.mp hc with rfl | hc
      · exact h c (List.mem_cons_self ..)
      · exact ih (fun d hd => h d (List.mem_cons_of_mem _ hd)) c hc

/-- A step between two cells of a store, seen in the row of their contents. -/
theorem map_stepAt {δ : Type*} {φ ψ : δ → Option β} {f : β → β → β × β} {k : Nat} {ps : List δ}
    {l : List β} {p q : δ} {a b : β} (hn : ps.Nodup) (hmap : ps.map φ=l.map some)
    (hp : ps[k]?=some p) (hq : ps[k+1]?=some q) (ha : φ q=some a) (hb : φ p=some b)
    (ha' : ψ q=some (f a b).1) (hb' : ψ p=some (f a b).2)
    (hother : ∀ o, o ≠ p → o ≠ q → ψ o=φ o) : ps.map ψ=(stepAt f k l).map some := by
  induction k generalizing ps l with
  | zero =>
    match ps with
    | [] => cases hp
    | [_] => cases hq
    | p'::q'::ps =>
      obtain rfl : p'=p := Option.some.inj hp
      obtain rfl : q'=q := Option.some.inj hq
      match l with
      | [] => simp at hmap
      | [_] => simp at hmap
      | b'::a'::l =>
        simp only [List.map_cons,List.cons.injEq] at hmap
        obtain ⟨hb'',ha'',hrest⟩ := hmap
        obtain rfl : b=b' := Option.some.inj (hb.symm.trans hb'')
        obtain rfl : a=a' := Option.some.inj (ha.symm.trans ha'')
        rw [List.map_cons,List.map_cons,stepAt,List.map_cons,List.map_cons,ha',hb',← hrest]
        have hmem := List.nodup_cons.mp hn
        have hmem' := List.nodup_cons.mp hmem.2
        have hsame : ps.map ψ=ps.map φ := by
          refine List.map_congr_left fun o ho => hother o ?_ ?_
          · rintro rfl
            exact hmem.1 (List.mem_cons_of_mem _ ho)
          · rintro rfl
            exact hmem'.1 ho
        rw [hsame]
  | succ k ih =>
    match ps, l with
    | [], _ => cases hp
    | _::_, [] => simp at hmap
    | o::ps, c::l =>
      simp only [List.map_cons,List.cons.injEq] at hmap
      have hmem := List.nodup_cons.mp hn
      have hpmem : p ∈ ps := List.mem_of_getElem? hp
      have hqmem : q ∈ ps := List.mem_of_getElem? hq
      rw [List.map_cons,stepAt,List.map_cons,ih hmem.2 hmap.2 hp hq]
      rw [hother o (fun h => hmem.1 (h ▸ hpmem)) fun h => hmem.1 (h ▸ hqmem),hmap.1]

theorem held_stepAt {k : Nat} {qs : List (TentativeQueue α)} (h : Ready qs) :
    held (stepAt TentativeQueue.moveTo k qs)=held qs := by
  induction k generalizing qs with
  | zero =>
    match qs with
    | [] => rfl
    | [_] => rfl
    | b::a::qs =>
      have hp : a.peeked=0 := h a (List.mem_cons_self ..)
      simp only [stepAt,held_cons,← List.append_assoc,TentativeQueue.moveTo_items b hp]
  | succ k ih =>
    cases qs with
    | nil => rfl
    | cons b qs => rw [stepAt,held_cons,held_cons,ih h.tail]

theorem Ready.stepAt {k : Nat} {qs : List (TentativeQueue α)} (h : Ready qs) :
    Ready (stepAt TentativeQueue.moveTo k qs) := by
  cases k with
  | zero =>
    match qs with
    | [] => exact h
    | [_] => exact h
    | b::a::qs =>
      intro q hq
      rcases List.mem_cons.mp hq with rfl | hq
      · exact (TentativeQueue.moveTo_peeked b (h a (by simp))).1
      · exact h q (by simp [hq])
  | succ k =>
    cases qs with
    | nil => exact h
    | cons b qs =>
      refine stepAt_all (fun a b ha hb => ?_) h
      obtain ⟨ha',hb'⟩ := TentativeQueue.moveTo_peeked b ha
      exact ⟨ha',hb'.trans hb⟩

theorem Fits.stepAt {limit n k : Nat} {qs : List (TentativeQueue α)} (hr : Ready qs)
    (h : Fits limit n qs) : Fits limit n (stepAt TentativeQueue.moveTo k qs) := by
  induction k generalizing qs with
  | zero =>
    match qs with
    | [] => exact h
    | [_] => exact h
    | b::a::qs =>
      obtain ⟨hb,ha,hqs⟩ := h
      obtain ⟨hsame,hgrow⟩ := TentativeQueue.moveTo_total b (hr a (by simp))
      refine ⟨?_,?_,hqs⟩
      · rw [held_cons,List.length_append] at hb ⊢
        omega
      · rw [hsame]
        exact ha
  | succ k ih =>
    cases qs with
    | nil => exact h
    | cons b qs =>
      refine ⟨?_,ih hr.tail h.2⟩
      rw [held_stepAt hr.tail]
      exact h.1

/-- Each queue of a fitting row has room in its count for an item that can still come. -/
theorem Fits.isChain {limit n : Nat} {qs : List (TentativeQueue α)} (hr : Ready qs)
    (h : Fits limit n qs) :
    qs.IsChain fun b a => a.peeked=0 ∧ (a.items ≠ [] → b.total+1<limit) := by
  induction qs with
  | nil => exact .nil
  | cons b qs ih =>
    cases qs with
    | nil => exact .singleton _
    | cons a qs =>
      refine .cons_cons ⟨hr a (by simp),fun ha => ?_⟩ (ih hr.tail h.2)
      have hb := h.1
      have hpos := List.length_pos_iff.mpr ha
      rw [held_cons,List.length_append] at hb
      omega

theorem atStart_forall₂ {R : β → γ → Prop} {f : β → β} {g : γ → γ} {bs : List β} {cs : List γ}
    (h : List.Forall₂ R bs cs)
    (hstep : ∀ b c, cs.getLast?=some c → R b c → R (f b) (g c)) :
    List.Forall₂ R (atStart f bs) (atStart g cs) := by
  induction h with
  | nil => exact .nil
  | cons hb hrest ih =>
    cases hrest with
    | nil => exact .cons (hstep _ _ rfl hb) .nil
    | cons ha hrest => exact .cons hb (ih hstep)

theorem atStart_all {f : β → β} {P : β → Prop} (hf : ∀ b, P b → P (f b)) {l : List β}
    (h : ∀ b ∈ l, P b) : ∀ b ∈ atStart f l, P b := by
  induction l with
  | nil => exact h
  | cons b l ih =>
    intro c hc
    cases l with
    | nil =>
      cases List.mem_singleton.mp hc
      exact hf b (h b (List.mem_singleton_self b))
    | cons a l =>
      rcases List.mem_cons.mp hc with rfl | hc
      · exact h c (List.mem_cons_self ..)
      · exact ih (fun d hd => h d (List.mem_cons_of_mem _ hd)) c hc

section Write

variable {q : TentativeQueue α} {qs : List (TentativeQueue α)} (x : α)

/-- What enters the row is its youngest item. -/
theorem held_write (hlast : qs.getLast?=some q) (hroom : q.items.length<q.cap) :
    held (atStart (fun q => (q.write x).2) qs)=held qs++[x] := by
  induction qs with
  | nil => cases hlast
  | cons b qs ih =>
    cases qs with
    | nil =>
      obtain rfl : b=q := Option.some.inj hlast
      rw [atStart,held_cons,(TentativeQueue.write_room x hroom).1,held_cons]
      simp [held]
    | cons a qs => rw [atStart,held_cons,ih hlast,held_cons b,List.append_assoc]

/-- A row without room stays as it is. -/
theorem write_refused (hlast : qs.getLast?=some q) (hfull : ¬q.items.length<q.cap) :
    atStart (fun q => (q.write x).2) qs=qs := by
  induction qs with
  | nil => rfl
  | cons b qs ih =>
    cases qs with
    | nil =>
      obtain rfl : b=q := Option.some.inj hlast
      rw [atStart,TentativeQueue.write_full x hfull]
    | cons a qs => rw [atStart,ih hlast]

theorem Ready.write (h : Ready qs) : Ready (atStart (fun q => (q.write x).2) qs) := by
  cases qs with
  | nil => exact h
  | cons b qs =>
    cases qs with
    | nil => exact fun q hq => by cases hq
    | cons a qs =>
      have hkeep : ∀ q : TentativeQueue α, q.peeked=0 → (q.write x).2.peeked=0 :=
        fun q hq => (q.write_peeked x).trans hq
      exact atStart_all hkeep h

theorem Fits.write {limit n : Nat} (h : Fits limit (n+1) qs) :
    Fits limit n (atStart (fun q => (q.write x).2) qs) := by
  have hgrow : ∀ q : TentativeQueue α, (q.write x).2.total ≤ q.total+1 ∧
      (q.write x).2.items.length ≤ q.items.length+1 := by
    intro q
    by_cases hroom : q.items.length<q.cap
    · obtain ⟨hitems,-,htotal⟩ := TentativeQueue.write_room x hroom
      rw [hitems,htotal,List.length_append]
      exact ⟨Nat.le_refl _,Nat.le_refl _⟩
    · rw [TentativeQueue.write_full x hroom]
      exact ⟨Nat.le_succ _,Nat.le_succ _⟩
  have hheld : ∀ qs : List (TentativeQueue α),
      (held (atStart (fun q => (q.write x).2) qs)).length ≤ (held qs).length+1 := by
    intro qs
    induction qs with
    | nil => exact Nat.zero_le _
    | cons b qs ih =>
      cases qs with
      | nil => simpa [atStart,held] using (hgrow b).2
      | cons a qs =>
        rw [atStart,held_cons,held_cons b,List.length_append,List.length_append]
        omega
  induction qs with
  | nil => trivial
  | cons b qs ih =>
    cases qs with
    | nil =>
      have hb := h.1
      refine ⟨?_,trivial⟩
      have htotal := (hgrow b).1
      dsimp only
      omega
    | cons a qs =>
      have hb := h.1
      have hlen := hheld (a::qs)
      exact ⟨by omega,ih h.2⟩

end Write

/-- The last queue of the row hands out or releases items. -/
theorem Fits.front {limit n : Nat} {q r : TentativeQueue α} {qs : List (TentativeQueue α)}
    (htotal : r.total=q.total) (h : Fits limit n (q::qs)) : Fits limit n (r::qs) :=
  ⟨htotal ▸ h.1,h.2⟩

end QueueChain

end CalvinConstrained
