import CalvinConstrained.Runtime.FifoQueue
import CalvinConstrained.Runtime.Message
import CalvinConstrained.Runtime.PortRoundTrip

namespace CalvinConstrained

/-- The relations between the size, the positions and the slots that the operations rely on. -/
structure Fifo.Valid {α : Type} (f : Fifo α) : Prop where
  size : 1 ≤ f.size
  read_le : f.readPos ≤ f.tentativeReadPos
  tentative_le : f.tentativeReadPos ≤ f.writePos
  room : f.writePos-f.readPos<f.size
  slots : f.tokens.length=f.size.toNat

/-- What the lookups of `cc_fifo_init` find in a queue. -/
structure QueueFields where
  queuetype : Option Text
  size : Option UInt32
  writePos : Option UInt32
  objTentative : Option Bytes
  objReaders : Option Bytes
  reader : Option Text
  tentative : Option UInt32
  objReadPos : Option Bytes
  readPos : Option UInt32
  tokens : Option (List (Option Bytes))

/-- The data of a token. -/
def tokenData (mp : Msgpuck) (objTokens : Bytes) (i : Nat) : Option (Option Bytes) := do
  let some objToken ← Coder.getValueFromArray mp objTokens i | return none
  let some objData ← Coder.getValueFromMap mp objToken (ascii "data") | return none
  return some (objData.take (← Coder.getSizeOfValue mp objData))

namespace QueueFields

def readerName (q : QueueFields) : Bytes := q.reader.elim [] fun t => cstr (t.ptr.take t.len)

/-- The fields of a queue: every lookup is defined. -/
structure Reads (mp : Msgpuck) (r : Bytes) (q : QueueFields) : Prop where
  queuetype : Coder.decodeStringFromMap mp r (ascii "queuetype")=some q.queuetype
  size : Coder.decodeUintFromMap mp r (ascii "N")=some q.size
  writePos : Coder.decodeUintFromMap mp r (ascii "write_pos")=some q.writePos
  objTentative : Coder.getValueFromMap mp r (ascii "tentative_read_pos")=some q.objTentative
  objReaders : Coder.getValueFromMap mp r (ascii "readers")=some q.objReaders
  reader : ∀ o ∈ q.objReaders, Coder.decodeStringFromArray mp o 0=some q.reader
  tentative : ∀ o ∈ q.objTentative, Coder.decodeUintFromMap mp o q.readerName=some q.tentative
  objReadPos : Coder.getValueFromMap mp r (ascii "read_pos")=some q.objReadPos
  readPos : ∀ o ∈ q.objReadPos, Atom.fifoReadPos mp q.tentative o q.readerName=some q.readPos
  noTokens : q.tokens=none → Coder.getValueFromMap mp r (ascii "fifo")=some none
  tokens : ∀ ts ∈ q.tokens, ∃ o, Coder.getValueFromMap mp r (ascii "fifo")=some (some o) ∧
    Coder.getSizeOfArray mp o=some ts.length ∧ ∀ i t, ts[i]?=some t → tokenData mp o i=some t

variable (q : QueueFields)

/-- The token array is allocated. -/
def sized : Bool :=
  q.queuetype.any (fun t => strncmpEq (ascii "fanout_fifo") t.ptr t.len) && q.size.isSome

/-- The name of the reader is copied. -/
def named : Bool :=
  q.sized && q.writePos.isSome && q.objTentative.isSome && q.objReaders.isSome && q.reader.isSome

/-- The tokens are looked at: all other fields are there, up to the positions. -/
def reaches : Bool := q.named && q.objReadPos.isSome

/-- The array or the copy is too long for a size of 32 bits. -/
def cut (tokenSize : Nat) : Bool :=
  (q.sized && q.size.any fun n => 2^32 ≤ tokenSize*n.toNat) ||
    (q.named && q.reader.any fun t => 2^32 ≤ t.len+1)

/-- The queue before its tokens are taken over. -/
def start : Fifo Bytes :=
  {Fifo.init (q.size.getD 0) with
    writePos := q.writePos.getD 0
    tentativeReadPos := q.tentative.getD 0
    readPos := q.readPos.getD 0}

def moving : Prop := q.start.readPos ≠ q.start.tentativeReadPos ∨ q.start.writePos ≠ q.start.readPos

instance : Decidable q.moving := inferInstanceAs (Decidable (_ ∨ _))

/-- The queue is returned. -/
def accepted : Bool := q.reaches && q.readPos.isSome && (q.tokens.getD []).all Option.isSome

/-- The array and the copy are as long as they should be, tokens that are taken over have slots, and
a queue that is returned is one. -/
structure Good (tokenSize : Nat) : Prop where
  array : q.sized=true → ∀ n ∈ q.size, tokenSize*n.toNat<2^32
  name : q.named=true → ∀ t ∈ q.reader, t.len+1<2^32
  slots : q.reaches=true → q.moving →
    ((q.tokens.getD []).takeWhile Option.isSome).length ≤ q.start.size.toNat
  queuetype : q.accepted=true → ∀ t ∈ q.queuetype, t.content=ascii "fanout_fifo"
  tokens : q.accepted=true → (q.tokens.getD []).length ≤ q.start.size.toNat
  size : q.accepted=true → 1 ≤ q.start.size
  read_le : q.accepted=true → q.start.readPos ≤ q.start.tentativeReadPos
  tentative_le : q.accepted=true → q.start.tentativeReadPos ≤ q.start.writePos
  room : q.accepted=true → q.start.writePos-q.start.readPos<q.start.size

end QueueFields

/-- Whatever allocations fail, `cc_fifo_init` ends, and a queue that it returns is valid; one that
comes with a state has the queue type and no more tokens than slots. -/
def RestoresValid (mp : Msgpuck) (tokenSize : Nat) (objFifo : Option Bytes)
    (objProperties : Bytes) (q : QueueFields) : Prop :=
  ∀ s, ∃ res t, Atom.fifoInit mp tokenSize objFifo objProperties s=some (res,t) ∧ ∀ f ∈ res,
    f.Valid ∧ (objFifo.isSome=true → (∃ t ∈ q.queuetype, t.content=ascii "fanout_fifo") ∧
      (q.tokens.getD []).length ≤ f.size.toNat)

namespace Atom

/-- What a program gives: nothing when an allocation fails, otherwise the outcome. -/
structure Outcome {α : Type} (m : Atom (Option α)) (x : Option (Option α)) : Prop where
  calm : ∀ s : Node, s.host.fate.allocs=[] → m s=x.map fun a => (a,s)
  any : ∀ s, (∃ t, m s=some (none,t)) ∨ ∃ t, m s=x.map fun a => (a,t)

section Rules

variable {α β : Type} {m : Atom (Option α)} {x : Option (Option α)}

theorem outcome_pure (a : Option α) : Outcome (pure a) (some a) :=
  ⟨fun _ _ => rfl,fun s => .inr ⟨s,rfl⟩⟩

theorem outcome_undefined : Outcome (undefined : Atom (Option α)) none :=
  ⟨fun _ _ => rfl,fun s => .inr ⟨s,rfl⟩⟩

/-- What holds whatever allocations fail is what holds of the outcome. -/
theorem outcome_iff {P : α → Prop} (h : Outcome m x) :
    (∀ s, ∃ res t, m s=some (res,t) ∧ ∀ a ∈ res, P a) ↔ ∃ res, x=some res ∧ ∀ a ∈ res, P a := by
  constructor
  · intro hall
    obtain ⟨res,t,hres,hP⟩ := hall (Node.init bareHost)
    rw [h.calm _ rfl] at hres
    obtain ⟨b,hb,heq⟩ := Option.map_eq_some_iff.mp hres
    cases heq
    exact ⟨_,hb,hP⟩
  · intro hx s
    obtain ⟨res,rfl,hP⟩ := hx
    rcases h.any s with ⟨t,ht⟩ | ⟨t,ht⟩
    · exact ⟨none,t,ht,fun a ha => nomatch ha⟩
    · exact ⟨res,t,ht,hP⟩

theorem outcome_ofOption {a : β} {f : β → Atom (Option α)} (h : Outcome (f a) x) :
    Outcome (ofOption (some a) >>= f) x := h

/-- A program that goes on with what another one gives. -/
theorem outcome_bind {m : Atom (Option β)} {f : Option β → Atom (Option α)} {b : β}
    (hnone : f none=pure none) (hm : Outcome m (some (some b))) (hf : Outcome (f (some b)) x) :
    Outcome (m >>= f) x where
  calm s hs := by
    rw [bind_apply,hm.calm s hs]
    exact hf.calm s hs
  any s := by
    rcases hm.any s with ⟨t,ht⟩ | ⟨t,ht⟩
    · refine .inl ⟨t,?_⟩
      rw [bind_apply,ht,Option.bind_some,hnone]
      rfl
    · rw [bind_apply,ht]
      exact hf.any t

theorem outcome_bind_none {m : Atom (Option β)} {f : Option β → Atom (Option α)}
    (hnone : f none=pure none) (hm : Outcome m none) : Outcome (m >>= f) none where
  calm s hs := by
    rw [bind_apply,hm.calm s hs]
    rfl
  any s := by
    rcases hm.any s with ⟨t,ht⟩ | ⟨t,ht⟩
    · refine .inl ⟨t,?_⟩
      rw [bind_apply,ht,Option.bind_some,hnone]
      rfl
    · refine .inr ⟨t,?_⟩
      rw [bind_apply,ht]
      rfl

theorem outcome_map {g : Option α → Option β} (hg : g none=none) (h : Outcome m x) :
    Outcome (do let a ← m; return g a) (x.map g) where
  calm s hs := by
    rw [bind_apply,h.calm s hs]
    cases x <;> rfl
  any s := by
    rcases h.any s with ⟨t,ht⟩ | ⟨t,ht⟩
    · refine .inl ⟨t,?_⟩
      rw [bind_apply,ht,Option.bind_some,hg]
      rfl
    · refine .inr ⟨t,?_⟩
      rw [bind_apply,ht]
      cases x <;> rfl

theorem outcome_alloc (h : Outcome m x) :
    Outcome (do if !(← alloc) then return none else m) x where
  calm s hs := by
    rw [bind_apply,PortDoc.alloc_calm hs]
    exact h.calm s hs
  any s := by
    obtain ⟨b,t,ht⟩ : ∃ b t, alloc s=some (b,t) := by
      unfold alloc
      split
      · exact ⟨_,_,rfl⟩
      · exact ⟨_,_,rfl⟩
    rw [bind_apply,ht,Option.bind_some]
    cases b with
    | true => exact h.any t
    | false => exact .inl ⟨t,rfl⟩

end Rules

/-- The tokens taken over by a queue, one slot after the other. -/
def storeTokens (moving : Prop) [Decidable moving] :
    List (Option Bytes) → Nat → Fifo Bytes → Option (Option (Fifo Bytes))
  | [],_,f => some (some f)
  | none::_,_,_ => some none
  | some b::ts,i,f =>
    if moving then
      if f.tokens.length ≤ i then none
      else storeTokens moving ts (i+1) {f with tokens := f.tokens.set i (some b)}
    else storeTokens moving ts (i+1) f

section Tokens

variable {mp : Msgpuck}

theorem fifoTokens_outcome {objTokens : Bytes} (moving : Prop) [Decidable moving]
    (ts : List (Option Bytes)) (i : Nat) (f : Fifo Bytes)
    (hf : f.readPos ≠ f.tentativeReadPos ∨ f.writePos ≠ f.readPos ↔ moving)
    (hts : ∀ j t, ts[j]?=some t → tokenData mp objTokens (i+j)=some t) :
    Outcome (fifoTokens mp objTokens f ts.length i) (storeTokens moving ts i f) := by
  induction ts generalizing i f with
  | nil => exact outcome_pure _
  | cons t ts ih =>
    have hfirst : tokenData mp objTokens i=some t := hts 0 t rfl
    have hrest : ∀ j t, ts[j]?=some t → tokenData mp objTokens (i+1+j)=some t := by
      intro j t hj
      rw [show i+1+j=i+(j+1) by omega]
      exact hts (j+1) t (by simpa using hj)
    rw [List.length_cons,fifoTokens]
    obtain ⟨objToken,harray,h₁⟩ := Option.bind_eq_some_iff.mp hfirst
    rw [harray]
    apply outcome_ofOption
    cases objToken with
    | none =>
      cases h₁
      exact outcome_pure none
    | some objToken =>
      obtain ⟨objData,hmap,h₂⟩ := Option.bind_eq_some_iff.mp h₁
      dsimp only
      rw [hmap]
      apply outcome_ofOption
      cases objData with
      | none =>
        cases h₂
        exact outcome_pure none
      | some objData =>
        obtain ⟨size,hsize,h₃⟩ := Option.bind_eq_some_iff.mp h₂
        cases h₃
        dsimp only
        rw [storeTokens]
        by_cases hm : moving
        · rw [if_pos (hf.mpr hm),if_pos hm,hsize]
          apply outcome_ofOption
          apply outcome_alloc
          by_cases hslot : f.tokens.length ≤ i
          · rw [if_pos hslot,if_pos hslot]
            exact outcome_undefined
          · rw [if_neg hslot,if_neg hslot]
            exact ih (i+1) _ hf hrest
        · rw [if_neg (fun h => hm (hf.mp h)),if_neg hm]
          exact ih (i+1) f hf hrest

theorem storeTokens_still {moving : Prop} [Decidable moving] (hm : ¬moving)
    (ts : List (Option Bytes)) (i : Nat) (f : Fifo Bytes) : storeTokens moving ts i f ≠ none := by
  induction ts generalizing i with
  | nil => exact fun h => nomatch h
  | cons t ts ih =>
    cases t with
    | none => exact fun h => nomatch h
    | some b =>
      rw [storeTokens,if_neg hm]
      exact ih (i+1)

/-- A token is written behind the slots when too many come in front of the first broken one. -/
theorem storeTokens_eq_none {moving : Prop} [Decidable moving] {ts : List (Option Bytes)} {i : Nat}
    {f : Fifo Bytes} (hi : i ≤ f.tokens.length) : storeTokens moving ts i f=none ↔
      moving ∧ f.tokens.length < i+(ts.takeWhile Option.isSome).length := by
  induction ts generalizing i f with
  | nil =>
    simp only [storeTokens,List.takeWhile_nil,List.length_nil,reduceCtorEq,false_iff]
    omega
  | cons t ts ih =>
    cases t with
    | none =>
      simp only [storeTokens,List.takeWhile_cons,Option.isSome_none,Bool.false_eq_true,if_false,
        List.length_nil,reduceCtorEq,false_iff]
      omega
    | some b =>
      have hlen : ((some b::ts).takeWhile Option.isSome).length=
          (ts.takeWhile Option.isSome).length+1 := by simp
      rw [storeTokens,hlen]
      by_cases hm : moving
      · rw [if_pos hm]
        by_cases hslot : f.tokens.length ≤ i
        · rw [if_pos hslot]
          exact iff_of_true rfl ⟨hm,by omega⟩
        · rw [if_neg hslot,ih (by rw [List.length_set]; omega),List.length_set]
          have harith : i+1+(ts.takeWhile Option.isSome).length=
              i+((ts.takeWhile Option.isSome).length+1) := by omega
          rw [harith]
      · rw [if_neg hm]
        exact iff_of_false (storeTokens_still hm ts (i+1) f) fun h => hm h.1

/-- Otherwise the queue comes back when all tokens have data, with its size and positions. -/
theorem storeTokens_eq_some {moving : Prop} [Decidable moving] {ts : List (Option Bytes)} {i : Nat}
    {f : Fifo Bytes} {res : Option (Fifo Bytes)} (h : storeTokens moving ts i f=some res) :
    res.isSome=ts.all Option.isSome ∧ ∀ g ∈ res, ∃ slots : List (Option Bytes),
      slots.length=f.tokens.length ∧ g={f with tokens := slots} := by
  induction ts generalizing i f with
  | nil =>
    cases h
    exact ⟨rfl,fun g hg => ⟨f.tokens,rfl,(Option.some.inj hg).symm⟩⟩
  | cons t ts ih =>
    cases t with
    | none =>
      cases h
      exact ⟨rfl,fun g hg => nomatch hg⟩
    | some b =>
      rw [storeTokens] at h
      split at h
      · split at h
        · cases h
        · obtain ⟨hall,hkept⟩ := ih h
          refine ⟨by simpa using hall,fun g hg => ?_⟩
          obtain ⟨slots,hlen,rfl⟩ := hkept g hg
          exact ⟨slots,hlen.trans List.length_set,rfl⟩
      · obtain ⟨hall,hkept⟩ := ih h
        exact ⟨by simpa using hall,hkept⟩

end Tokens

section Queue

variable {mp : Msgpuck} {tokenSize : Nat} {r : Bytes} {q : QueueFields}

/-- What `cc_fifo_init` makes of the fields of a queue. -/
def queueOutcome (tokenSize : Nat) (q : QueueFields) : Option (Option (Fifo Bytes)) :=
  if q.cut tokenSize then none
  else if q.reaches then
    (storeTokens q.moving (q.tokens.getD []) 0 q.start).map fun f => if q.readPos.isSome then f else none
  else some none

theorem queueOutcome_stop (hcut : q.cut tokenSize=false) (h : q.reaches=false) :
    queueOutcome tokenSize q=some none := by
  rw [queueOutcome,hcut,h]
  rfl

theorem fifoTokensFrom_outcome (hq : q.Reads mp r) : ∃ objTokens,
    Coder.getValueFromMap mp r (ascii "fifo")=some objTokens ∧
    Outcome (fifoTokensFrom mp objTokens q.start)
      (storeTokens q.moving (q.tokens.getD []) 0 q.start) := by
  cases htokens : q.tokens with
  | none => exact ⟨none,hq.noTokens htokens,outcome_pure _⟩
  | some ts =>
    obtain ⟨o,hget,hsize,hdata⟩ := hq.tokens ts htokens
    refine ⟨some o,hget,?_⟩
    rw [fifoTokensFrom,hsize]
    apply outcome_ofOption
    exact fifoTokens_outcome q.moving ts 0 q.start Iff.rfl fun j t hj => by
      rw [Nat.zero_add]
      exact hdata j t hj

theorem cut_iff : q.cut tokenSize=true ↔ (q.sized=true ∧ ∃ n ∈ q.size, 2^32 ≤ tokenSize*n.toNat) ∨
    q.named=true ∧ ∃ t ∈ q.reader, 2^32 ≤ t.len+1 := by
  simp [QueueFields.cut,Option.any_eq_true]

theorem cut_eq {n : UInt32} (hsized : q.sized=true) (hsize : q.size=some n)
    (hfits : tokenSize*n.toNat<2^32) :
    q.cut tokenSize=(q.named && q.reader.any fun t => 2^32 ≤ t.len+1) := by
  simp only [QueueFields.cut,hsized,hsize,Option.any_some,decide_eq_false (Nat.not_le.mpr hfits),
    Bool.and_false,Bool.false_or]

theorem fifoRestore_outcome (hq : q.Reads mp r) {n : UInt32} (hsized : q.sized=true)
    (hsize : q.size=some n) (hfits : tokenSize*n.toNat<2^32) :
    Outcome (fifoRestore mp r (Fifo.init n)) (queueOutcome tokenSize q) := by
  have hcut := cut_eq hsized hsize hfits
  have hstop : q.named=false → queueOutcome tokenSize q=some none := fun h =>
    queueOutcome_stop (by rw [hcut,h,Bool.false_and]) (by rw [QueueFields.reaches,h,Bool.false_and])
  unfold fifoRestore
  rw [hq.writePos]
  apply outcome_ofOption
  cases hwrite : q.writePos with
  | none =>
    rw [hstop (by simp [QueueFields.named,hwrite])]
    exact outcome_pure none
  | some writePos =>
    dsimp only
    rw [hq.objTentative]
    apply outcome_ofOption
    cases htentative : q.objTentative with
    | none =>
      rw [hstop (by simp [QueueFields.named,htentative])]
      exact outcome_pure none
    | some objTentative =>
      dsimp only
      rw [hq.objReaders]
      apply outcome_ofOption
      cases hreaders : q.objReaders with
      | none =>
        rw [hstop (by simp [QueueFields.named,hreaders])]
        exact outcome_pure none
      | some objReaders =>
        dsimp only
        rw [hq.reader objReaders hreaders]
        apply outcome_ofOption
        cases hreader : q.reader with
        | none =>
          rw [hstop (by simp [QueueFields.named,hreader])]
          exact outcome_pure none
        | some reader =>
          have hname : q.readerName=cstr (reader.ptr.take reader.len) := by
            rw [QueueFields.readerName,hreader]
            rfl
          have hnamed : q.named=true := by
            simp [QueueFields.named,hsized,hwrite,htentative,hreaders,hreader]
          rw [hnamed,hreader,Option.any_some,Bool.true_and] at hcut
          have hread := hq.tentative objTentative htentative
          rw [hname] at hread
          apply outcome_alloc
          by_cases hlong : 2^32 ≤ reader.len+1
          · rw [if_pos hlong,queueOutcome,hcut,decide_eq_true hlong,if_pos rfl]
            exact outcome_undefined
          rw [decide_eq_false hlong] at hcut
          rw [if_neg hlong,hread]
          apply outcome_ofOption
          rw [hq.objReadPos]
          apply outcome_ofOption
          cases hreadPos : q.objReadPos with
          | none =>
            rw [queueOutcome_stop hcut (by simp [QueueFields.reaches,hreadPos])]
            exact outcome_pure none
          | some objReadPos =>
            have hpos := hq.readPos objReadPos hreadPos
            rw [hname] at hpos
            dsimp only
            rw [hpos]
            apply outcome_ofOption
            obtain ⟨objTokens,hget,htokens⟩ := fifoTokensFrom_outcome hq
            rw [hget]
            apply outcome_ofOption
            have hreaches : q.reaches=true := by simp [QueueFields.reaches,hnamed,hreadPos]
            have hstart : q.start={Fifo.init n with
                writePos := writePos
                tentativeReadPos := q.tentative.getD 0
                readPos := q.readPos.getD 0} := by
              simp [QueueFields.start,hsize,hwrite]
            rw [queueOutcome,hcut,if_neg Bool.false_ne_true,if_pos hreaches,← hstart]
            exact outcome_map (by simp) htokens

/-- The array is allocated with its whole length, or overrun. -/
theorem fifoAlloc_outcome (tokenSize : Nat) (n : UInt32) : Outcome (fifoAlloc tokenSize n)
    (if tokenSize*n.toNat<2^32 then some (some (Fifo.init n)) else none) := by
  apply outcome_alloc
  have hcut : tokenSize*n.toNat%2^32<tokenSize*n.toNat ↔ ¬tokenSize*n.toNat<2^32 := by omega
  by_cases hfits : tokenSize*n.toNat<2^32
  · rw [if_pos hfits,if_neg (fun h => hcut.mp h hfits)]
    exact outcome_pure _
  · rw [if_neg hfits,if_pos (hcut.mpr hfits)]
    exact outcome_undefined

variable (tokenSize) in
theorem fifoInit_outcome (hq : q.Reads mp r) (objProperties : Bytes) :
    Outcome (fifoInit mp tokenSize (some r) objProperties) (queueOutcome tokenSize q) := by
  have hstop : q.sized=false → queueOutcome tokenSize q=some none := fun h =>
    queueOutcome_stop (by simp [QueueFields.cut,QueueFields.named,h])
      (by simp [QueueFields.reaches,QueueFields.named,h])
  apply outcome_alloc
  dsimp only
  rw [hq.queuetype]
  apply outcome_ofOption
  cases htype : q.queuetype with
  | none =>
    rw [hstop (by simp [QueueFields.sized,htype])]
    exact outcome_pure none
  | some t =>
    dsimp only
    cases hkind : strncmpEq (ascii "fanout_fifo") t.ptr t.len with
    | false =>
      rw [hstop (by simp [QueueFields.sized,htype,hkind])]
      exact outcome_pure none
    | true =>
      rw [hq.size]
      apply outcome_ofOption
      cases hsize : q.size with
      | none =>
        rw [hstop (by simp [QueueFields.sized,hsize])]
        exact outcome_pure none
      | some n =>
        have hsized : q.sized=true := by simp [QueueFields.sized,htype,hkind,hsize]
        dsimp only
        by_cases hfits : tokenSize*n.toNat<2^32
        · have hwhole := fifoAlloc_outcome tokenSize n
          rw [if_pos hfits] at hwhole
          exact outcome_bind rfl hwhole (fifoRestore_outcome hq hsized hsize hfits)
        · have hshort := fifoAlloc_outcome tokenSize n
          rw [if_neg hfits] at hshort
          have hcut : q.cut tokenSize=true :=
            cut_iff.mpr (.inl ⟨hsized,n,hsize,Nat.not_lt.mp hfits⟩)
          rw [queueOutcome,if_pos hcut]
          exact outcome_bind_none rfl hshort

theorem queueOutcome_eq_none : queueOutcome tokenSize q=none ↔ q.cut tokenSize=true ∨
    q.reaches=true ∧ q.moving ∧
      q.start.size.toNat<((q.tokens.getD []).takeWhile Option.isSome).length := by
  have hslots : q.start.tokens.length=q.start.size.toNat := by
    simp [QueueFields.start,Fifo.init]
  rw [queueOutcome]
  cases q.cut tokenSize with
  | true => simp
  | false =>
    rw [if_neg Bool.false_ne_true]
    cases hreaches : q.reaches with
    | false => simp
    | true =>
      rw [if_pos rfl,Option.map_eq_none_iff,storeTokens_eq_none (Nat.zero_le _),hslots,Nat.zero_add]
      simp

/-- The queue that is returned has the size and the positions of the fields. -/
theorem queueOutcome_eq_some {res : Option (Fifo Bytes)} (h : queueOutcome tokenSize q=some res) :
    res.isSome=q.accepted ∧ ∀ f ∈ res, ∃ slots : List (Option Bytes),
      slots.length=q.start.size.toNat ∧ f={q.start with tokens := slots} := by
  have hslots : q.start.tokens.length=q.start.size.toNat := by
    simp [QueueFields.start,Fifo.init]
  rw [queueOutcome] at h
  split at h
  · cases h
  cases hreaches : q.reaches with
  | false =>
    rw [hreaches] at h
    cases h
    exact ⟨by simp [QueueFields.accepted,hreaches],fun f hf => absurd hf (Option.not_mem_none f)⟩
  | true =>
    rw [if_pos hreaches] at h
    obtain ⟨stored,hstore,hres⟩ := Option.map_eq_some_iff.mp h
    obtain ⟨hall,hkept⟩ := storeTokens_eq_some hstore
    cases hpos : q.readPos.isSome with
    | false =>
      rw [hpos] at hres
      subst hres
      exact ⟨by simp [QueueFields.accepted,hpos],fun f hf => absurd hf (Option.not_mem_none f)⟩
    | true =>
      rw [if_pos hpos] at hres
      subst hres
      refine ⟨by rw [hall,QueueFields.accepted,hreaches,hpos]; rfl,fun f hf => ?_⟩
      obtain ⟨slots,hlen,rfl⟩ := hkept f hf
      exact ⟨slots,hlen.trans hslots,rfl⟩

theorem queue_good_iff : (∃ res, queueOutcome tokenSize q=some res ∧ ∀ f ∈ res, f.Valid ∧
    (∃ t ∈ q.queuetype, t.content=ascii "fanout_fifo") ∧
      (q.tokens.getD []).length ≤ f.size.toNat) ↔ q.Good tokenSize := by
  constructor
  · intro hall
    obtain ⟨res,hres,hvalid⟩ := hall
    obtain ⟨haccepted,hkept⟩ := queueOutcome_eq_some hres
    have hfifo : q.accepted=true → ∃ f ∈ res, f.size=q.start.size ∧ f.readPos=q.start.readPos ∧
        f.tentativeReadPos=q.start.tentativeReadPos ∧ f.writePos=q.start.writePos := by
      intro ha
      rw [← haccepted] at ha
      obtain ⟨f,rfl⟩ := Option.isSome_iff_exists.mp ha
      obtain ⟨slots,-,rfl⟩ := hkept f rfl
      exact ⟨_,rfl,rfl,rfl,rfl,rfl⟩
    have hnone : ¬queueOutcome tokenSize q=none := by simp [hres]
    rw [queueOutcome_eq_none,cut_iff] at hnone
    refine ⟨fun hsized n hn => ?_,fun hnamed t ht => ?_,fun hreaches hmoving => ?_,fun ha t ht => ?_,
      fun ha => ?_,fun ha => ?_,fun ha => ?_,fun ha => ?_,fun ha => ?_⟩
    · exact Nat.not_le.mp fun hle => hnone (.inl (.inl ⟨hsized,n,hn,hle⟩))
    · exact Nat.not_le.mp fun hle => hnone (.inl (.inr ⟨hnamed,t,ht,hle⟩))
    · exact Nat.not_lt.mp fun hlt => hnone (.inr ⟨hreaches,hmoving,hlt⟩)
    · obtain ⟨f,hf,-⟩ := hfifo ha
      obtain ⟨t',ht',htext⟩ := (hvalid f hf).2.1
      cases ht.symm.trans ht'
      exact htext
    · obtain ⟨f,hf,hsize,-⟩ := hfifo ha
      exact hsize ▸ (hvalid f hf).2.2
    · obtain ⟨f,hf,hsize,-⟩ := hfifo ha
      exact hsize ▸ (hvalid f hf).1.size
    · obtain ⟨f,hf,-,hread,htentative,-⟩ := hfifo ha
      exact hread ▸ htentative ▸ (hvalid f hf).1.read_le
    · obtain ⟨f,hf,-,-,htentative,hwrite⟩ := hfifo ha
      exact hwrite ▸ htentative ▸ (hvalid f hf).1.tentative_le
    · obtain ⟨f,hf,hsize,hread,-,hwrite⟩ := hfifo ha
      exact hwrite ▸ hread ▸ hsize ▸ (hvalid f hf).1.room
  · intro hgood
    cases hres : queueOutcome tokenSize q with
    | none =>
      rcases queueOutcome_eq_none.mp hres with hcut | ⟨hreaches,hmoving,hlt⟩
      · rcases cut_iff.mp hcut with ⟨hsized,n,hn,hle⟩ | ⟨hnamed,t,ht,hle⟩
        · exact absurd (hgood.array hsized n hn) (Nat.not_lt.mpr hle)
        · exact absurd (hgood.name hnamed t ht) (Nat.not_lt.mpr hle)
      · exact absurd (hgood.slots hreaches hmoving) (Nat.not_le.mpr hlt)
    | some res =>
      refine ⟨res,rfl,fun f hf => ?_⟩
      obtain ⟨haccepted,hkept⟩ := queueOutcome_eq_some hres
      obtain ⟨slots,hlen,rfl⟩ := hkept f hf
      have ha : q.accepted=true := by
        rw [← haccepted,Option.isSome_iff_exists]
        exact ⟨_,hf⟩
      have htype : ∃ t, q.queuetype=some t := by
        have hreaches := ha
        simp only [QueueFields.accepted,QueueFields.reaches,QueueFields.named,QueueFields.sized,
          Bool.and_eq_true] at hreaches
        cases hq : q.queuetype with
        | none => simp [hq] at hreaches
        | some t => exact ⟨t,rfl⟩
      obtain ⟨t,ht⟩ := htype
      exact ⟨⟨hgood.size ha,hgood.read_le ha,hgood.tentative_le ha,hgood.room ha,hlen⟩,
        ⟨t,ht,hgood.queuetype ha t ht⟩,hgood.tokens ha⟩

end Queue

/-- A new queue has the length of its properties. -/
theorem fifoInit_new {mp : Msgpuck} (tokenSize : Nat) {objProperties : Bytes}
    {length : Option UInt32}
    (h : Coder.decodeUintFromMap mp objProperties (ascii "queue_length")=some length) :
    Outcome (fifoInit mp tokenSize none objProperties)
      (if tokenSize*(length.getD 4).toNat<2^32 then some (some (Fifo.init (length.getD 4)))
        else none) := by
  apply outcome_alloc
  dsimp only
  rw [h]
  apply outcome_ofOption
  exact fifoAlloc_outcome tokenSize _

end Atom

theorem Fifo.init_valid_iff {α : Type} (size : UInt32) : (init size : Fifo α).Valid ↔ size ≠ 0 := by
  constructor
  · intro h h0
    subst h0
    have hzero : ¬(1 : UInt32) ≤ 0 := by decide
    exact hzero h.size
  · intro h
    have hpos : 0<size.toNat := Nat.pos_of_ne_zero fun h0 => h (UInt32.toNat_inj.mp h0)
    have hzero : (0-0 : UInt32)=0 := rfl
    refine ⟨UInt32.le_iff_toNat_le.mpr hpos,UInt32.le_refl _,UInt32.le_refl _,?_,by simp [init]⟩
    rw [init,hzero,UInt32.lt_iff_toNat_lt]
    exact hpos

/-- A queue is restored as a valid one or not at all exactly when its fields and tokens say so, and a
new one when its length is not zero and its array not too long. -/
theorem restored_queue_valid_iff {mp : Msgpuck} (tokenSize : Nat) {objFifo : Option Bytes}
    {objProperties : Bytes} {l : Option UInt32} {q : QueueFields}
    (hlength : objFifo=none →
      Coder.decodeUintFromMap mp objProperties (ascii "queue_length")=some l)
    (hq : ∀ r ∈ objFifo, q.Reads mp r) : RestoresValid mp tokenSize objFifo objProperties q ↔
      (objFifo=none → l ≠ some 0 ∧ tokenSize*(l.getD 4).toNat<2^32) ∧
      (objFifo.isSome=true → q.Good tokenSize) := by
  cases objFifo with
  | none =>
    have hnew := Atom.outcome_iff (P := fun f : Fifo Bytes => f.Valid ∧
      ((none : Option Bytes).isSome=true → (∃ t ∈ q.queuetype, t.content=ascii "fanout_fifo") ∧
        (q.tokens.getD []).length ≤ f.size.toNat)) (Atom.fifoInit_new tokenSize (hlength rfl))
    refine hnew.trans ?_
    by_cases hfits : tokenSize*(l.getD 4).toNat<2^32
    · rw [if_pos hfits]
      cases l with
      | none => simpa [Fifo.init_valid_iff] using hfits
      | some n => simpa [Fifo.init_valid_iff] using fun _ => hfits
    · rw [if_neg hfits]
      exact iff_of_false (by simp) fun h => hfits (h.1 rfl).2
  | some r =>
    have hrestored := Atom.outcome_iff (P := fun f : Fifo Bytes => f.Valid ∧
      ((some r).isSome=true → (∃ t ∈ q.queuetype, t.content=ascii "fanout_fifo") ∧
        (q.tokens.getD []).length ≤ f.size.toNat))
      (Atom.fifoInit_outcome tokenSize (hq r rfl) objProperties)
    refine hrestored.trans ?_
    rw [← Atom.queue_good_iff]
    simp

section Examples

/-- A queue of the reader `p` from which nothing was read, with nil tokens. -/
def queueMessage (queuetype : Bytes) (size writePos : UInt32) (tokens : Nat) : Bytes :=
  Doc.encode msgpack (.map 7 [
    (ascii "queuetype",.raw (msgpack.encodeStr queuetype)),
    (ascii "write_pos",.raw (msgpack.encodeUint writePos)),
    (ascii "readers",.array 1 [.raw (msgpack.encodeStr (ascii "p"))]),
    (ascii "N",.raw (msgpack.encodeUint size)),
    (ascii "tentative_read_pos",.map 1 [(ascii "p",.raw (msgpack.encodeUint 0))]),
    (ascii "read_pos",.map 1 [(ascii "p",.raw (msgpack.encodeUint 0))]),
    (ascii "fifo",.array tokens (List.replicate tokens (.map 1 [(ascii "data",.raw msgpack.encodeNil)])))])

/-- The fields of a queue message. -/
def queueFields (r : Bytes) (writePos size : UInt32) (tokens : Nat) : QueueFields where
  queuetype := (Coder.decodeStringFromMap msgpack r (ascii "queuetype")).join
  size := some size
  writePos := some writePos
  objTentative := (Coder.getValueFromMap msgpack r (ascii "tentative_read_pos")).join
  objReaders := (Coder.getValueFromMap msgpack r (ascii "readers")).join
  reader := ((Coder.getValueFromMap msgpack r (ascii "readers")).join.bind fun o =>
    Coder.decodeStringFromArray msgpack o 0).join
  tentative := some 0
  objReadPos := (Coder.getValueFromMap msgpack r (ascii "read_pos")).join
  readPos := some 0
  tokens := some (List.replicate tokens (some msgpack.encodeNil))

def smallQueue : Bytes := queueMessage (ascii "fanout_fifo") 4 1 1

theorem smallQueue_reads : (queueFields smallQueue 1 4 1).Reads msgpack smallQueue where
  queuetype := by decide
  size := by decide
  writePos := by decide
  objTentative := by decide
  objReaders := by decide
  reader := by decide
  tentative := by decide
  objReadPos := by decide
  readPos := by decide
  noTokens := fun h => nomatch h
  tokens := by
    intro ts hts
    cases hts
    refine ⟨0x91::0x81::0xa4::ascii "data"++[0xc0],by decide,by decide,fun i t hi => ?_⟩
    cases i with
    | zero =>
      cases hi
      decide
    | succ i => cases hi

/-- A queue with one token and three free slots comes back. -/
theorem restored_queue_valid_small :
    RestoresValid msgpack Atom.sizeofToken (some smallQueue) [] (queueFields smallQueue 1 4 1) := by
  have hgood : (queueFields smallQueue 1 4 1).Good Atom.sizeofToken := by
    constructor <;> decide +kernel
  exact (restored_queue_valid_iff Atom.sizeofToken (l := none) (fun h => absurd h (Option.some_ne_none _))
    (fun r hr => Option.some.inj hr ▸ smallQueue_reads)).mpr
      ⟨fun h => absurd h (Option.some_ne_none _),fun _ => hgood⟩

/-- A queue type that is only the start of the supported one and a size of zero are accepted, a
second token is written behind a single slot, and an array of `2^28+1` slots gets 16 bytes. -/
theorem restored_queue_invalid :
    ¬RestoresValid msgpack Atom.sizeofToken (some (queueMessage (ascii "fan") 4 0 0)) []
      (queueFields (queueMessage (ascii "fan") 4 0 0) 0 4 0) ∧
    ¬RestoresValid msgpack Atom.sizeofToken (some (queueMessage (ascii "fanout_fifo") 0 0 0)) []
      (queueFields (queueMessage (ascii "fanout_fifo") 0 0 0) 0 0 0) ∧
    ¬RestoresValid msgpack Atom.sizeofToken (some (queueMessage (ascii "fanout_fifo") 1 1 2)) []
      (queueFields (queueMessage (ascii "fanout_fifo") 1 1 2) 1 1 2) ∧
    ¬RestoresValid msgpack Atom.sizeofToken
      (some (queueMessage (ascii "fanout_fifo") 0x10000001 0 0)) []
      (queueFields (queueMessage (ascii "fanout_fifo") 0x10000001 0 0) 0 0x10000001 0) := by
  refine ⟨fun h => ?_,fun h => ?_,fun h => ?_,fun h => ?_⟩
  · obtain ⟨res,t,hres,hvalid⟩ := h (Node.init bareHost)
    have hfifo : (Atom.fifoInit msgpack Atom.sizeofToken (some (queueMessage (ascii "fan") 4 0 0)) []
        (Node.init bareHost)).map Prod.fst=some (some (Fifo.init 4)) := by decide +kernel
    rw [hres] at hfifo
    obtain ⟨-,hqueue⟩ := hvalid _ (Option.some.inj hfifo)
    revert hqueue
    decide
  · obtain ⟨res,t,hres,hvalid⟩ := h (Node.init bareHost)
    have hfifo : (Atom.fifoInit msgpack Atom.sizeofToken (some (queueMessage (ascii "fanout_fifo") 0 0 0)) []
        (Node.init bareHost)).map Prod.fst=some (some (Fifo.init 0)) := by decide +kernel
    rw [hres] at hfifo
    obtain ⟨hfifo,-⟩ := hvalid _ (Option.some.inj hfifo)
    exact (Fifo.init_valid_iff 0).mp hfifo rfl
  · obtain ⟨res,t,hres,-⟩ := h (Node.init bareHost)
    have hundefined : (Atom.fifoInit msgpack Atom.sizeofToken (some (queueMessage (ascii "fanout_fifo") 1 1 2)) []
        (Node.init bareHost)).isNone=true := by decide +kernel
    rw [hres] at hundefined
    cases hundefined
  · obtain ⟨res,t,hres,-⟩ := h (Node.init bareHost)
    have hundefined : (Atom.fifoInit msgpack Atom.sizeofToken
        (some (queueMessage (ascii "fanout_fifo") 0x10000001 0 0)) []
        (Node.init bareHost)).isNone=true := by decide +kernel
    rw [hres] at hundefined
    cases hundefined

end Examples

end CalvinConstrained
