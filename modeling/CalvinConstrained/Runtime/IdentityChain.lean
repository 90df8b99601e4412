import CalvinConstrained.Framework.QueueChain
import CalvinConstrained.Runtime.LocalTransfer

namespace CalvinConstrained

open QueueChain

/-- `cc_actor_identity_fire` on the queues of its in-port and its out-port. -/
def identityFire (inp out : Fifo Bytes) : Bool × Fifo Bytes × Fifo Bytes :=
  if !inp.tokensAvailable 1 then (false,inp,out)
  else if !out.slotsAvailable 1 then (false,inp,out)
  else
    let token := inp.peek.1
    let inp := inp.peek.2
    let written := out.writeToken token
    if written.1 ≠ .success then (false,inp.cancelCommit,written.2)
    else (true,inp.commitRead false,written.2)

namespace Fifo

variable {inp out : Fifo Bytes} {a b : TentativeQueue Bytes}

theorem Refines.hasRoom (hb : out.Refines b) :
    out.slotsAvailable 1=true ↔ b.items.length<b.cap := by
  rw [hb.slotsAvailable,decide_eq_true_eq,TentativeQueue.freeSlots]
  simp only [UInt32.reduceToNat]
  omega

theorem Refines.write_item (hb : out.Refines b) {x : Bytes} (hroom : b.items.length<b.cap)
    (hfit : b.total+1<2^32) :
    out.writeToken (some x)=(.success,(out.write x).2) ∧ (out.write x).2.Refines (b.write x).2 := by
  have hwrite := hb.write x (by rw [(TentativeQueue.write_room x hroom).2.2]; exact hfit)
  refine ⟨?_,hwrite.2⟩
  simp only [writeToken,Fifo.write,hb.hasRoom.mpr hroom,if_true]

/-- Firing moves the oldest token of the in-port to the out-port. -/
theorem Refines.identityFire (ha : inp.Refines a) (hb : out.Refines b) (hp : a.peeked=0)
    (hfit : a.items ≠ [] → b.total+1<2^32) :
    (identityFire inp out).2.1.Refines (a.moveTo b).1 ∧
      (identityFire inp out).2.2.Refines (a.moveTo b).2 := by
  unfold CalvinConstrained.identityFire
  cases hitems : a.items with
  | nil =>
    have hnone : inp.tokensAvailable 1=false := by
      rw [ha.peekable,hitems,hp]
      rfl
    rw [TentativeQueue.moveTo_nil hitems,if_pos (by rw [hnone]; rfl)]
    exact ⟨ha,hb⟩
  | cons x xs =>
    have hsome : inp.tokensAvailable 1=true := (ha.peek_not_empty hp).mpr (by simp [hitems])
    rw [if_neg (by simp [hsome])]
    by_cases hroom : b.items.length<b.cap
    · have hlt : a.peeked<a.items.length := by simp [hp,hitems]
      obtain ⟨htoken,hpeek⟩ := ha.peek hlt
      have hitem : inp.peek.1=some x := by
        rw [htoken,TentativeQueue.peek,dif_pos hlt]
        simp [hp,hitems]
      obtain ⟨hwrite,hwritten⟩ := hb.write_item (x := x) hroom (hfit (by simp [hitems]))
      rw [TentativeQueue.moveTo_cons hitems hroom,if_neg (by simp [hb.hasRoom.mpr hroom])]
      simp only [hitem,hwrite,ne_eq,not_true_eq_false,if_false]
      exact ⟨hpeek.commitRead false,hwritten⟩
    · have hfull : out.slotsAvailable 1=false := by
        rw [← Bool.not_eq_true,hb.hasRoom]
        exact hroom
      rw [TentativeQueue.moveTo_full hroom,if_pos (by simp [hfull])]
      exact ⟨ha,hb⟩

/-- So does the transmission to a port of the node. -/
theorem Refines.transmitLocal (ha : out.Refines a) (hb : inp.Refines b) (hp : a.peeked=0)
    (hfit : a.items ≠ [] → b.total+1<2^32) :
    (transmitLocal out inp).1.Refines (a.moveTo b).1 ∧
      (transmitLocal out inp).2.Refines (a.moveTo b).2 := by
  cases hitems : a.items with
  | nil =>
    have hnone : out.tokensAvailable 1=false := by
      rw [ha.peekable,hitems,hp]
      rfl
    rw [TentativeQueue.moveTo_nil hitems,CalvinConstrained.transmitLocal,
      if_neg (by simp [hnone])]
    exact ⟨ha,hb⟩
  | cons x xs =>
    by_cases hroom : b.items.length<b.cap
    · obtain ⟨hmoved,hput⟩ := ha.transmitLocal_moves hp hitems (hb.hasRoom.mpr hroom)
      rw [TentativeQueue.moveTo_cons hitems hroom,hput]
      exact ⟨hmoved,(hb.write_item hroom (hfit (by simp [hitems]))).2⟩
    · have hfull : inp.slotsAvailable 1=false := by
        rw [← Bool.not_eq_true,hb.hasRoom]
        exact hroom
      rw [TentativeQueue.moveTo_full hroom,ha.transmitLocal_full hp hfull]
      exact ⟨ha,hb⟩

end Fifo

/-- The queues of a chain of Identity actors: the sink's in-port, and behind it for every actor,
the last first, its out-port and its in-port. -/
structure IdentityChain where
  rings : List (Fifo Bytes)
  consumed : List Bytes
  accepted : List Bytes
  deriving DecidableEq

/-- A pass of the scheduler over the actors in the given order, each named by its place before the
sink; a write to the first in-port; and the sink's reads. -/
inductive ChainEvent
  | pass (order : List Nat)
  | write (data : Bytes)
  | peek
  | commit (free : Bool)
  deriving DecidableEq

def ChainEvent.writes : ChainEvent → Bool
  | .write _ => true
  | _ => false

namespace IdentityChain

/-- What a pass does for one actor: it is fired, and its out-port transmits. -/
def turn (rings : List (Fifo Bytes)) (j : Nat) : List (Fifo Bytes) :=
  stepAt transmitLocal (2*j) (stepAt (fun f g => (identityFire f g).2) (2*j+1) rings)

def pass (rings : List (Fifo Bytes)) (order : List Nat) : List (Fifo Bytes) := order.foldl turn rings

def step : ChainEvent → IdentityChain → Option IdentityChain
  | .pass order,s => some {s with rings := pass s.rings order}
  | .write data,s =>
    s.rings.getLast?.map fun f => {s with
      rings := atStart (fun f => (f.write data).2) s.rings
      accepted := if (f.write data).1=.success then s.accepted++[data] else s.accepted}
  | .peek,s =>
    match s.rings with
    | [] => none
    | f::fs => if f.tokensAvailable 1 then some {s with rings := f.peek.2::fs} else none
  | .commit free,s =>
    match s.rings with
    | [] => none
    | f::fs => some {s with
      rings := f.commitRead free::fs
      consumed := if (f.commitRead free).readPos=f.readPos then s.consumed
        else s.consumed++(f.slot f.readPos).toList}

/-- Queues that hold the given tokens, oldest first, where `n` more can come. -/
def Holds (tokens : List Bytes) (n : Nat) (rings : List (Fifo Bytes)) : Prop :=
  ∃ qs, List.Forall₂ Fifo.Refines rings qs ∧ Ready qs ∧ Fits (2^32) n qs ∧ held qs=tokens

section Steps

variable {tokens : List Bytes} {n : Nat} {rings : List (Fifo Bytes)}

/-- A move between two neighbours of the chain. -/
theorem Holds.stepAt {f : Fifo Bytes → Fifo Bytes → Fifo Bytes × Fifo Bytes}
    (hf : ∀ {inp out : Fifo Bytes} {a b : TentativeQueue Bytes}, inp.Refines a → out.Refines b →
      a.peeked=0 → (a.items ≠ [] → b.total+1<2^32) →
      (f inp out).1.Refines (a.moveTo b).1 ∧ (f inp out).2.Refines (a.moveTo b).2)
    (h : Holds tokens n rings) (k : Nat) : Holds tokens n (QueueChain.stepAt f k rings) := by
  obtain ⟨qs,hrefines,hready,hfits,hheld⟩ := h
  refine ⟨QueueChain.stepAt TentativeQueue.moveTo k qs,?_,hready.stepAt,hfits.stepAt hready,
    (held_stepAt hready).trans hheld⟩
  exact stepAt_forall₂ (fun _ _ _ _ ha hb hp => hf ha hb hp.1 hp.2) hrefines (hfits.isChain hready)

theorem Holds.turn (h : Holds tokens n rings) (j : Nat) : Holds tokens n (turn rings j) :=
  (h.stepAt Fifo.Refines.identityFire _).stepAt Fifo.Refines.transmitLocal _

theorem Holds.pass (h : Holds tokens n rings) (order : List Nat) :
    Holds tokens n (pass rings order) := by
  induction order generalizing rings with
  | nil => exact h
  | cons j order ih => exact ih (h.turn j)

theorem Holds.write {f : Fifo Bytes} (h : Holds tokens (n+1) rings) (hlast : rings.getLast?=some f)
    (data : Bytes) :
    Holds (tokens++if (f.write data).1=.success then [data] else []) n
      (atStart (fun f => (f.write data).2) rings) := by
  obtain ⟨qs,hrefines,hready,hfits,hheld⟩ := h
  obtain ⟨q,hq,hfq⟩ := getLast?_forall₂ hrefines hlast
  refine ⟨atStart (fun q => (q.write data).2) qs,?_,hready.write data,hfits.write data,?_⟩
  · refine atStart_forall₂ hrefines fun g r hr hgr => (hgr.write data ?_).2
    have hlimit := hfits.last hr
    by_cases hroom : r.items.length<r.cap
    · rw [(TentativeQueue.write_room data hroom).2.2]
      omega
    · rw [TentativeQueue.write_full data hroom]
      omega
  · by_cases hroom : q.items.length<q.cap
    · have hwritten : (f.write data).1=.success := by rw [Fifo.write,if_pos (hfq.hasRoom.mpr hroom)]
      rw [held_write data hq hroom,hheld,if_pos hwritten]
    · have hrefused : (f.write data).1=.fail := by
        rw [Fifo.write,if_neg (fun hfree => hroom (hfq.hasRoom.mp hfree))]
      rw [write_refused data hq hroom,hheld,hrefused,if_neg (by decide),List.append_nil]

/-- The sink's reads take tokens from the front. -/
theorem Holds.front {f g : Fifo Bytes} {fs : List (Fifo Bytes)} {taken : List Bytes}
    (hg : ∀ q, f.Refines q → ∃ r, g.Refines r ∧ r.total=q.total ∧ taken++r.items=q.items)
    (h : Holds tokens n (f::fs)) :
    ∃ rest, taken++rest=tokens ∧ Holds rest n (g::fs) := by
  obtain ⟨qs,hrefines,hready,hfits,hheld⟩ := h
  cases hrefines with
  | cons hf hrest =>
    obtain ⟨r,hr,htotal,hitems⟩ := hg _ hf
    refine ⟨r.items++held _,?_,r::_,.cons hr hrest,hready,hfits.front htotal,rfl⟩
    rw [← List.append_assoc,hitems]
    exact hheld

theorem Holds.commit {f : Fifo Bytes} {fs : List (Fifo Bytes)} (free : Bool)
    (h : Holds tokens n (f::fs)) :
    ∃ rest, (if (f.commitRead free).readPos=f.readPos then [] else (f.slot f.readPos).toList)++rest=
      tokens ∧ Holds rest n (f.commitRead free::fs) :=
  h.front fun q hq => ⟨q.commit,hq.commitRead free,q.total_commit,hq.commit_takes free⟩

theorem Holds.peek {f : Fifo Bytes} {fs : List (Fifo Bytes)} (hsome : f.tokensAvailable 1=true)
    (h : Holds tokens n (f::fs)) : Holds tokens n (f.peek.2::fs) := by
  have hkeep : ∀ q, f.Refines q →
      ∃ r, f.peek.2.Refines r ∧ r.total=q.total ∧ []++r.items=q.items := by
    intro q hq
    have hlt : q.peeked<q.items.length := by
      rw [hq.peekable] at hsome
      exact of_decide_eq_true hsome
    refine ⟨q.peek.2,(hq.peek hlt).2,q.total_peek,?_⟩
    simp [TentativeQueue.peek,hlt]
  obtain ⟨rest,rfl,hrest⟩ := h.front hkeep
  exact hrest

/-- What was consumed and what the chain still holds is what it held at first and what it took
in; `n` more tokens can come. -/
def Conserves (tokens : List Bytes) (n : Nat) (s : IdentityChain) : Prop :=
  ∃ rest, s.consumed++rest=tokens++s.accepted ∧ Holds rest n s.rings

theorem step_conserves {e : ChainEvent} {s t : IdentityChain} (he : step e s=some t)
    (h : Conserves tokens (n+if e.writes then 1 else 0) s) : Conserves tokens n t := by
  obtain ⟨rest,hall,hrings⟩ := h
  cases e with
  | pass order =>
    cases he
    exact ⟨rest,hall,hrings.pass order⟩
  | write data =>
    obtain ⟨f,hlast,rfl⟩ := Option.map_eq_some_iff.mp he
    refine ⟨_,?_,hrings.write hlast data⟩
    change s.consumed++(rest++_)=tokens++if _ then _ else _
    rw [← List.append_assoc,hall]
    split <;> simp
  | peek =>
    simp only [step] at he
    split at he
    · cases he
    next f fs hfs =>
    split at he
    · next hsome =>
      cases he
      rw [hfs] at hrings
      exact ⟨rest,hall,hrings.peek hsome⟩
    · cases he
  | commit free =>
    simp only [step] at he
    split at he
    · cases he
    next f fs hfs =>
    cases he
    rw [hfs] at hrings
    obtain ⟨left,rfl,hleft⟩ := hrings.commit free
    refine ⟨left,?_,hleft⟩
    rw [← hall]
    split <;> simp

theorem run_conserves {es : List ChainEvent} {s t : IdentityChain}
    (hr : Runs step (fun _ _ => True) s es t)
    (h : Conserves tokens (es.countP ChainEvent.writes) s) : Conserves tokens 0 t := by
  induction hr with
  | nil => exact h
  | cons _ he _ ih =>
    refine ih (step_conserves he ?_)
    rwa [List.countP_cons] at h

end Steps

end IdentityChain

namespace Fifo

/-- The tokens between the read position and the write position, oldest first. -/
def uncommitted {α : Type} (f : Fifo α) : List (Option α) :=
  (List.range (f.writePos-f.readPos).toNat).map fun i => f.slot (f.readPos+.ofNat i)

theorem Refines.uncommitted {α : Type} {f : Fifo α} {q : TentativeQueue α} (h : f.Refines q) :
    f.uncommitted=q.items.map some := by
  have hread := h.stores.read
  have hwrite := h.stores.write
  have hlimit := f.writePos.toNat_lt
  have hlen : (f.writePos-f.readPos).toNat=q.items.length := by
    rw [UInt32.toNat_sub]
    omega
  refine List.ext_getElem (by simp [Fifo.uncommitted,hlen]) fun i hi hi' => ?_
  rw [List.length_map] at hi'
  have hpos : (f.readPos+.ofNat i).toNat=q.released+i := by
    rw [UInt32.toNat_add,UInt32.toNat_ofNat']
    omega
  simp [Fifo.uncommitted,h.stores.slot _ i hi' hpos]

end Fifo

namespace IdentityChain

theorem Holds.uncommitted {tokens : List Bytes} {n : Nat} {rings : List (Fifo Bytes)}
    (h : Holds tokens n rings) : rings.flatMap Fifo.uncommitted=tokens.map some := by
  obtain ⟨qs,hrefines,-,-,rfl⟩ := h
  clear * - hrefines
  induction hrefines with
  | nil => rfl
  | cons hq _ ih => rw [List.flatMap_cons,hq.uncommitted,ih,held_cons,List.map_append]

end IdentityChain

end CalvinConstrained
