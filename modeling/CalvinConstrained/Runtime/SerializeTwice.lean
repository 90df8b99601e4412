import CalvinConstrained.Runtime.Msgpack
import CalvinConstrained.Runtime.Serialize

namespace CalvinConstrained

/-- Nothing but the outcomes of later platform calls differs. -/
def Unchanged (s t : Node) : Prop := t={s with host := {s.host with fate := t.host.fate}}

def Node.withFate (s : Node) (fate : Fate) : Node := {s with host := {s.host with fate := fate}}

namespace Unchanged

variable {s t u : Node}

theorem trans (h : Unchanged s t) (k : Unchanged t u) : Unchanged s u := by
  unfold Unchanged at *
  rw [k,h]

theorem withFate_eq (h : Unchanged s t) : t.withFate s.host.fate=s := by
  rw [h]
  rfl

end Unchanged

/-- The node after `n` allocations. -/
def Node.dropAllocs (s : Node) (n : Nat) : Node :=
  s.withFate {s.host.fate with allocs := s.host.fate.allocs.drop n}

namespace Atom

theorem alloc_eq (s : Node) :
    alloc s=some (s.host.fate.allocs.headD true,s.dropAllocs 1) := by
  unfold alloc
  split
  · next h =>
    have hs : s.dropAllocs 1=s := by
      simp only [Node.dropAllocs,Node.withFate,h,List.drop_nil]
      rw [← h]
    rw [hs,h]
    rfl
  · next b rest h => simp [Node.dropAllocs,Node.withFate,h]

/-- `n` allocations succeed unless one of the next `n` outcomes is a failure. -/
theorem allocN_eq (n : Nat) (s : Node) :
    ∃ t, allocN n s=some (decide (false ∉ s.host.fate.allocs.take n),t) ∧ Unchanged s t ∧
      (false ∉ s.host.fate.allocs.take n → t=s.dropAllocs n) := by
  induction n generalizing s with
  | zero =>
    refine ⟨s,by simp [allocN],rfl,?_⟩
    intro _
    simp [Node.dropAllocs,Node.withFate]
  | succ n ih =>
    rw [allocN,bind_apply,alloc_eq]
    simp only [Option.bind_some]
    cases h : s.host.fate.allocs with
    | nil =>
      have hs : s.dropAllocs 1=s := by
        simp only [Node.dropAllocs,Node.withFate,h,List.drop_nil]
        rw [← h]
      obtain ⟨t,ht,hu,hd⟩ := ih s
      rw [h] at ht hd
      refine ⟨t,by simpa [hs] using ht,hu,?_⟩
      intro _
      rw [hd (by simp)]
      simp [Node.dropAllocs,Node.withFate,h]
    | cons b rest =>
      cases b with
      | false => exact ⟨s.dropAllocs 1,by simp,rfl,by simp⟩
      | true =>
        obtain ⟨t,ht,hu,hd⟩ := ih (s.dropAllocs 1)
        have hrest : (s.dropAllocs 1).host.fate.allocs=rest := by
          simp [Node.dropAllocs,Node.withFate,h]
        rw [hrest] at ht hd
        refine ⟨t,by simpa using ht,hu,?_⟩
        intro hf
        rw [hd (by simpa using hf)]
        simp [Node.dropAllocs,Node.withFate,h]

/-- `x` fails exactly when one of its `n` allocations does, and then has no effect;
otherwise it gives `r`. -/
def Allocates {γ : Type} (n : Nat) (x : Atom (Option γ)) (r : γ) : Prop := ∀ s : Node,
  (false ∈ s.host.fate.allocs.take n → ∃ t, x s=some (none,t) ∧ Unchanged s t) ∧
  (false ∉ s.host.fate.allocs.take n → x s=some (some r,s.dropAllocs n))

theorem dropAllocs_add (s : Node) (m n : Nat) :
    (s.dropAllocs m).dropAllocs n=s.dropAllocs (m+n) := by
  simp [Node.dropAllocs,Node.withFate]

theorem allocates_of_allocN {γ : Type} (n : Nat) (r : γ) :
    Allocates n (do if !(← allocN n) then return none else return some r) r := by
  intro s
  obtain ⟨t,ht,hu,hd⟩ := allocN_eq n s
  rw [bind_apply,ht]
  constructor
  · intro hf
    exact ⟨t,by simp [hf],hu⟩
  · intro hf
    simp [hf,hd hf]

theorem Allocates.bind {γ δ : Type} {m n : Nat} {x : Atom (Option γ)} {r : γ} {r' : δ}
    {f : Option γ → Atom (Option δ)} (hx : Allocates m x r) (hnone : f none=pure none)
    (hf : Allocates n (f (some r)) r') : Allocates (m+n) (x >>= f) r' := by
  intro s
  have htake : s.host.fate.allocs.take (m+n)=
      s.host.fate.allocs.take m++(s.host.fate.allocs.drop m).take n := List.take_add
  have hdrop : (s.dropAllocs m).host.fate.allocs=s.host.fate.allocs.drop m := rfl
  rw [htake,List.mem_append]
  constructor
  · intro hfail
    by_cases hm : false ∈ s.host.fate.allocs.take m
    · obtain ⟨t,ht,hu⟩ := (hx s).1 hm
      exact ⟨t,by simp [bind_apply,ht,hnone],hu⟩
    · have hxs := (hx s).2 hm
      obtain ⟨t,ht,hu⟩ := (hf (s.dropAllocs m)).1 (by rw [hdrop]; exact hfail.resolve_left hm)
      refine ⟨t,by simp [bind_apply,hxs,ht],?_⟩
      exact Unchanged.trans (t := s.dropAllocs m) rfl hu
  · intro hok
    rw [not_or] at hok
    have hxs := (hx s).2 hok.1
    have hfs := (hf (s.dropAllocs m)).2 (by rw [hdrop]; exact hok.2)
    simp [bind_apply,hxs,hfs,dropAllocs_add]

theorem listAddN_allocates (id : Bytes) (data : Option Bytes) (attributes : List Attribute) :
    Allocates 2 (listAddN id data attributes) (attributes++[⟨id,data⟩]) :=
  allocates_of_allocN 2 _

theorem addEncoded_allocates (id value : Bytes) (attributes : List Attribute) :
    Allocates 3 (addEncoded id value attributes) (attributes++[⟨id,some value⟩]) :=
  allocates_of_allocN 3 _

/-- The attribute list after encoding all of `values`. -/
def appended (attributes : List Attribute) (values : List (Bytes × Bytes)) : List Attribute :=
  attributes++values.map fun v => ⟨v.1,some v.2⟩

theorem addAllEncoded_allocates (attributes : List Attribute) (values : List (Bytes × Bytes)) :
    Allocates (3*values.length) (addAllEncoded attributes values)
      (appended attributes values) := by
  induction values generalizing attributes with
  | nil =>
    intro s
    simp [addAllEncoded,appended,Node.dropAllocs,Node.withFate]
  | cons v values ih =>
    obtain ⟨id,value⟩ := v
    have hn : 3*((id,value)::values).length=3+3*values.length := by
      rw [List.length_cons]
      omega
    have ha : appended attributes ((id,value)::values)=
        appended (attributes++[⟨id,some value⟩]) values := by
      simp [appended]
    rw [hn,ha]
    exact (addEncoded_allocates id value attributes).bind rfl (ih _)

variable (mp : Msgpuck)

/-- The allocations of the managed attributes of an actor. -/
def managedAllocs (x : Actor) : Nat :=
  match x.loaded,x.instanceState with
  | true,some state =>
    3*(encodedAttributes mp state).length+if (handedOver state).isSome then 2 else 0
  | _,_ => 0

/-- The actor after its managed attributes were collected. -/
def handOver (x : Actor) : Actor :=
  match x.loaded,x.instanceState with
  | true,some state =>
    match handedOver state with
    | some (_,_,rest) => {x with instanceState := some rest}
    | none => x
  | _,_ => x

/-- A CoAP source whose capability is not named after a point. -/
def Unnamed (x : Actor) : Prop :=
  x.loaded=true ∧ ∃ source requires, x.instanceState=some (.coap source requires) ∧
    requires.contains 46=false

variable {mp} {a : Ref} {x : Actor} {s : Node}

theorem actor_eq (h : s.actorMem.get a=some x) : actor a s=some (x,s) := by
  simp [actor,h]

theorem getManagedAttributes_unloaded (h : s.actorMem.get a=some x) (hl : x.loaded=false) :
    getManagedAttributes mp a s=some (some [],s) := by
  simp [getManagedAttributes,bind_apply,actor_eq h,hl]

theorem getManagedAttributes_uninitialized (h : s.actorMem.get a=some x) (hl : x.loaded=true)
    (hi : x.instanceState=none) : getManagedAttributes mp a s=none := by
  simp [getManagedAttributes,bind_apply,actor_eq h,hl,hi,undefined]

theorem getManagedAttributes_unnamed (h : s.actorMem.get a=some x) (hu : Unnamed x) :
    getManagedAttributes mp a s=some (none,s) := by
  obtain ⟨hl,source,requires,hi,hp⟩ := hu
  simp [getManagedAttributes,bind_apply,actor_eq h,hl,hi,-List.contains_eq_mem,hp]

/-- The common course of the callbacks once the state is there. -/
theorem getManagedAttributes_named (h : s.actorMem.get a=some x) (hl : x.loaded=true)
    {state : InstanceState} (hi : x.instanceState=some state) (hn : ¬Unnamed x) :
    getManagedAttributes mp a s=(do
      match ← addAllEncoded [] (encodedAttributes mp state) with
      | none => return none
      | some attributes =>
        match handedOver state with
        | none => return some attributes
        | some (id,data,rest) =>
          match ← listAddN id data attributes with
          | none => return none
          | some attributes =>
            setActor a {x with instanceState := some rest}
            return some attributes : Atom (Option (List Attribute))) s := by
  rw [getManagedAttributes,bind_apply,actor_eq h]
  simp only [Option.bind_some,hl,hi]
  cases state with
  | coap source requires =>
    have hp : requires.contains 46=true := by
      by_contra hc
      exact hn ⟨hl,source,requires,hi,by simpa using hc⟩
    rw [if_neg (by simp)]
    dsimp only
    rw [if_pos hp,bind_apply]
    rcases addAllEncoded [] (encodedAttributes mp (.coap source requires)) s with
      _ | ⟨_ | attributes,t⟩ <;> rfl
  | _ => rfl

/-- The managed attributes are collected unless an allocation fails; what the type hands
over is then missing from its state. -/
theorem getManagedAttributes_collects (mp : Msgpuck) (h : s.actorMem.get a=some x)
    (hi : x.loaded=true → x.instanceState.isSome=true) (hn : ¬Unnamed x) :
    (false ∈ s.host.fate.allocs.take (managedAllocs mp x) →
      ∃ t, getManagedAttributes mp a s=some (none,t) ∧ Unchanged s t) ∧
    (false ∉ s.host.fate.allocs.take (managedAllocs mp x) →
      ∃ managed t, getManagedAttributes mp a s=some (some managed,t) ∧
        t.actorMem.get a=some (handOver x) ∧
        t.host.fate.allocs=s.host.fate.allocs.drop (managedAllocs mp x) ∧
        (handOver x=x → Unchanged s t)) := by
  cases hl : x.loaded with
  | false =>
    have hm : managedAllocs mp x=0 := by simp [managedAllocs,hl]
    have ho : handOver x=x := by simp [handOver,hl]
    rw [hm,ho,getManagedAttributes_unloaded h hl]
    exact ⟨by simp,fun _ => ⟨[],s,rfl,h,rfl,fun _ => rfl⟩⟩
  | true =>
    obtain ⟨state,hs⟩ := Option.isSome_iff_exists.mp (hi hl)
    rw [getManagedAttributes_named h hl hs hn]
    have henc := addAllEncoded_allocates [] (encodedAttributes mp state)
    cases ho : handedOver state with
    | none =>
      have hm : managedAllocs mp x=3*(encodedAttributes mp state).length := by
        simp [managedAllocs,hl,hs,ho]
      have hx : handOver x=x := by simp [handOver,hl,hs,ho]
      rw [hm,hx]
      constructor
      · intro hf
        obtain ⟨t,ht,hu⟩ := (henc s).1 hf
        exact ⟨t,by simp [bind_apply,ht],hu⟩
      · intro hf
        refine ⟨appended [] (encodedAttributes mp state),s.dropAllocs _,?_,h,rfl,fun _ => rfl⟩
        rw [bind_apply,(henc s).2 hf]
        rfl
    | some given =>
      obtain ⟨id,data,rest⟩ := given
      have hm : managedAllocs mp x=3*(encodedAttributes mp state).length+2 := by
        simp [managedAllocs,hl,hs,ho]
      have hx : handOver x={x with instanceState := some rest} := by
        simp [handOver,hl,hs,ho]
      have hadd := listAddN_allocates id data (appended [] (encodedAttributes mp state))
      rw [hm,hx,List.take_add,List.mem_append]
      have hdrop : (s.dropAllocs (3*(encodedAttributes mp state).length)).host.fate.allocs=
          s.host.fate.allocs.drop (3*(encodedAttributes mp state).length) := rfl
      constructor
      · intro hf
        by_cases he : false ∈ s.host.fate.allocs.take (3*(encodedAttributes mp state).length)
        · obtain ⟨t,ht,hu⟩ := (henc s).1 he
          exact ⟨t,by simp [bind_apply,ht],hu⟩
        · obtain ⟨t,ht,hu⟩ := (hadd _).1 (by rw [hdrop]; exact hf.resolve_left he)
          refine ⟨t,by simp [bind_apply,(henc s).2 he,ht],?_⟩
          exact Unchanged.trans (t := s.dropAllocs _) rfl hu
      · intro hf
        rw [not_or] at hf
        have hlist := (hadd _).2 (by rw [hdrop]; exact hf.2)
        refine ⟨_,_,by simp only [bind_apply,(henc s).2 hf.1,Option.bind_some,hlist]; rfl,
          ?_,?_,?_⟩
        · simp [Heap.get_set h,Node.dropAllocs,Node.withFate]
        · simp [Node.dropAllocs,Node.withFate]
        · intro hx
          rw [hx]
          simp [Unchanged,Node.dropAllocs,Node.withFate,Heap.set_self h]

/-- `cc_calvinsys_get_attributes` adds to the private attributes unless an allocation
fails. -/
theorem calvinsysGetAttributes_adds (mp : Msgpuck) (h : s.actorMem.get a=some x) :
    (false ∈ s.host.fate.allocs.take 3 →
      ∃ t, calvinsysGetAttributes mp a s=some (.fail,t) ∧ Unchanged s t) ∧
    (false ∉ s.host.fate.allocs.take 3 →
      ∃ t item, calvinsysGetAttributes mp a s=some (.success,t) ∧
        t.actorMem.get a=some {x with privateAttributes := x.privateAttributes++[item]}) := by
  have htake : s.host.fate.allocs.take 3=
      s.host.fate.allocs.take 1++(s.host.fate.allocs.drop 1).take 2 :=
    List.take_add (i := 1) (j := 2)
  have hdrop : (s.dropAllocs 1).host.fate.allocs=s.host.fate.allocs.drop 1 := rfl
  have hget : (s.dropAllocs 1).actorMem.get a=some x := h
  have halloc : alloc s=some (decide (false ∉ s.host.fate.allocs.take 1),s.dropAllocs 1) := by
    rw [alloc_eq]
    rcases s.host.fate.allocs with _ | ⟨_ | _,_⟩ <;> simp
  let objects := s.host.objects.filter fun o => o.actor=a
  let data := Doc.map objects.length (objects.map (calvinsysObject mp))
  have hadd := listAddN_allocates (ascii "_calvinsys") (some (data.encode mp))
    x.privateAttributes (s.dropAllocs 1)
  rw [htake,List.mem_append,calvinsysGetAttributes]
  constructor
  · intro hf
    by_cases h1 : false ∈ s.host.fate.allocs.take 1
    · exact ⟨s.dropAllocs 1,by simp [bind_apply,halloc,h1],rfl⟩
    · obtain ⟨t,ht,hu⟩ := hadd.1 (by rw [hdrop]; exact hf.resolve_left h1)
      refine ⟨t,?_,Unchanged.trans (t := s.dropAllocs 1) rfl hu⟩
      simp only [data,objects] at ht
      simp [bind_apply,halloc,h1,actor_eq hget,ht]
  · intro hf
    rw [not_or] at hf
    have ht := hadd.2 (by rw [hdrop]; exact hf.2)
    simp only [data,objects] at ht
    let item : Attribute := ⟨ascii "_calvinsys",some (data.encode mp)⟩
    let y : Actor := {x with privateAttributes := x.privateAttributes++[item]}
    refine ⟨{s.dropAllocs 3 with actorMem := s.actorMem.set a y},item,?_,?_⟩
    · simp [bind_apply,halloc,hf.1,actor_eq hget,ht,dropAllocs_add]
      rfl
    · exact (Heap.get_set h y a).trans (if_pos rfl)

/-- The callbacks of the actor hold no buffer that they would hand over. -/
def Keeps (x : Actor) : Prop :=
  x.loaded=true → ∀ state ∈ x.instanceState, ∀ given ∈ handedOver state, given.2.1=none

theorem handOver_eq_self : handOver x=x ↔ Keeps x := by
  unfold handOver Keeps
  cases hl : x.loaded with
  | false => simp
  | true =>
    cases hi : x.instanceState with
    | none => simp
    | some state =>
      have hset : ∀ rest, {x with instanceState := some rest}=x ↔ rest=state := by
        intro rest
        constructor
        · intro h
          have hr := congrArg Actor.instanceState h
          rw [hi] at hr
          exact Option.some.inj hr
        · rintro rfl
          rw [← hi]
      cases state <;> simp [handedOver,← hl,hset,eq_comm (a := (none : Option Bytes))]

variable (mp a)

/-- Serializing leaves the node as it was, a second call with the same outcomes of the
platform gives the same result, and no map contains a key twice. -/
def SerializeRepeatable (includeState : Bool) (s : Node) : Prop :=
  ∃ r t, actorSerialize mp a includeState s=some (r,t) ∧ Unchanged s t ∧
    (∃ u, actorSerialize mp a includeState (t.withFate s.host.fate)=some (r,u)) ∧
    ∀ d ∈ r, d.KeysUnique

/-- Serializing ends without a result before it has changed the actor. -/
def SerializeGivesUp (s : Node) (x : Actor) : Prop :=
  x.privateAttributes=[] ∨ Unnamed x ∨
  false ∈ s.host.fate.allocs.take (managedAllocs mp x) ∨
  ((x.loaded=true → x.instanceState.isSome=true) ∧ Keeps x ∧
    false ∈ (s.host.fate.allocs.drop (managedAllocs mp x)).take 3)

variable {mp a}

/-- A call without a result and without a change can be repeated. -/
theorem repeatable_of_gives_up {includeState : Bool} {t : Node}
    (h : actorSerialize mp a includeState s=some (none,t)) (hu : Unchanged s t) :
    SerializeRepeatable mp a includeState s :=
  ⟨none,t,h,hu,⟨t,by rw [hu.withFate_eq]; exact h⟩,by simp⟩

/-- A call that changes the actor cannot be repeated. -/
theorem not_repeatable_of_changed {includeState : Bool} (h : s.actorMem.get a=some x)
    (hc : ∀ r t, actorSerialize mp a includeState s=some (r,t) → t.actorMem.get a ≠ some x) :
    ¬SerializeRepeatable mp a includeState s := by
  rintro ⟨r,t,ht,hu,-,-⟩
  apply hc r t ht
  rw [hu]
  exact h

theorem readPorts_state {ps : List Ref} {r : List (Port × Fifo Bytes)} {t : Node}
    (h : readPorts ps s=some (r,t)) : t=s := by
  induction ps generalizing r with
  | nil =>
    simp only [readPorts,pure_apply,Option.some.injEq,Prod.mk.injEq] at h
    exact h.2.symm
  | cons p ps ih =>
    rw [readPorts,bind_eq_some] at h
    obtain ⟨x,u,hx,h⟩ := h
    have hu : u=s := by
      unfold port at hx
      simp only [Option.map_eq_some_iff,Prod.mk.injEq] at hx
      obtain ⟨_,_,_,hu⟩ := hx
      exact hu.symm
    subst hu
    cases hf : x.fifo with
    | none => simp [hf,undefined] at h
    | some f =>
      simp only [hf,bind_eq_some,pure_apply,Option.some.injEq,Prod.mk.injEq] at h
      obtain ⟨rest,v,hr,-,rfl⟩ := h
      exact ih hr

/-- After the managed attributes, only a failure of `cc_calvinsys_get_attributes` can
leave the actor as it is then. -/
theorem actorSerialize_after_managed (includeState : Bool) {managed : List Attribute} {t : Node}
    {y : Actor} (h : s.actorMem.get a=some x) (hp : x.privateAttributes ≠ [])
    (hm : getManagedAttributes mp a s=some (some managed,t)) (hy : t.actorMem.get a=some y) :
    (false ∈ t.host.fate.allocs.take 3 →
      ∃ u, actorSerialize mp a includeState s=some (none,u) ∧ Unchanged t u) ∧
    (false ∉ t.host.fate.allocs.take 3 → ∃ item, ∀ r u,
      actorSerialize mp a includeState s=some (r,u) →
        u.actorMem.get a=some {y with privateAttributes := y.privateAttributes++[item]}) := by
  constructor
  · intro hf
    obtain ⟨u,hu,hsame⟩ := (calvinsysGetAttributes_adds mp hy).1 hf
    refine ⟨u,?_,hsame⟩
    simp [actorSerialize,bind_apply,actor_eq h,hp,hm,hu]
  · intro hf
    obtain ⟨u,item,hu,hset⟩ := (calvinsysGetAttributes_adds mp hy).2 hf
    refine ⟨item,?_⟩
    intro r v hv
    rw [actorSerialize,bind_apply,actor_eq h] at hv
    simp only [Option.bind_some,hp,if_false,bind_apply,hm,hu,actor_eq hset,ne_eq,
      not_true_eq_false] at hv
    obtain ⟨⟨inPorts,w⟩,hin,hv⟩ := Option.bind_eq_some_iff.mp hv
    obtain ⟨⟨outPorts,w'⟩,hout,hv⟩ := Option.bind_eq_some_iff.mp hv
    simp only [pure_apply,Option.some.injEq,Prod.mk.injEq] at hv
    rw [← hv.2,readPorts_state hout,readPorts_state hin]
    exact hset

/-- Serializing an actor is repeatable exactly when it gives up before it has changed
the actor. -/
theorem serialize_repeatable_iff (mp : Msgpuck) (a : Ref) (x : Actor) (includeState : Bool)
    (s : Node) (h : s.actorMem.get a=some x) :
    SerializeRepeatable mp a includeState s ↔ SerializeGivesUp mp s x := by
  by_cases hp : x.privateAttributes=[]
  · refine iff_of_true (repeatable_of_gives_up (t := s) ?_ rfl) (.inl hp)
    simp [actorSerialize,bind_apply,actor_eq h,hp]
  by_cases hn : Unnamed x
  · refine iff_of_true (repeatable_of_gives_up (t := s) ?_ rfl) (.inr (.inl hn))
    simp [actorSerialize,bind_apply,actor_eq h,hp,getManagedAttributes_unnamed h hn]
  by_cases hi : x.loaded=true → x.instanceState.isSome=true
  · have hcollects := getManagedAttributes_collects mp h hi hn
    by_cases hf : false ∈ s.host.fate.allocs.take (managedAllocs mp x)
    · obtain ⟨t,ht,hu⟩ := hcollects.1 hf
      refine iff_of_true (repeatable_of_gives_up ?_ hu) (.inr (.inr (.inl hf)))
      simp [actorSerialize,bind_apply,actor_eq h,hp,ht]
    obtain ⟨managed,t,ht,hy,hallocs,hsame⟩ := hcollects.2 hf
    obtain ⟨hfail,hadds⟩ := actorSerialize_after_managed includeState h hp ht hy
    rw [hallocs] at hfail hadds
    by_cases hc : false ∈ (s.host.fate.allocs.drop (managedAllocs mp x)).take 3
    · obtain ⟨u,hu,htu⟩ := hfail hc
      by_cases hk : Keeps x
      · refine iff_of_true (repeatable_of_gives_up hu ?_) (.inr (.inr (.inr ⟨hi,hk,hc⟩)))
        exact (hsame (handOver_eq_self.mpr hk)).trans htu
      · refine iff_of_false (not_repeatable_of_changed h ?_) ?_
        · rintro r v hv heq
          obtain ⟨-,rfl⟩ : none=r ∧ u=v := by simpa [hu] using hv
          rw [htu] at heq
          exact hk (handOver_eq_self.mp (Option.some.inj (hy.symm.trans heq)))
        · rintro (h | h | h | h)
          · exact hp h
          · exact hn h
          · exact hf h
          · exact hk h.2.1
    · obtain ⟨item,hitem⟩ := hadds hc
      refine iff_of_false (not_repeatable_of_changed h ?_) ?_
      · intro r v hv heq
        have hprivate : (handOver x).privateAttributes=x.privateAttributes := by
          unfold handOver
          split
          · split <;> rfl
          · rfl
        have hlen := congrArg (List.length ∘ Actor.privateAttributes)
          (Option.some.inj ((hitem r v hv).symm.trans heq))
        simp [hprivate] at hlen
      · rintro (h | h | h | h)
        · exact hp h
        · exact hn h
        · exact hf h
        · exact hc h.2.2
  · obtain ⟨hl,hnone⟩ : x.loaded=true ∧ x.instanceState=none := by simpa using hi
    have hm : managedAllocs mp x=0 := by simp [managedAllocs,hnone]
    refine iff_of_false (not_repeatable_of_changed h ?_) ?_
    · intro r v hv
      simp [actorSerialize,bind_apply,actor_eq h,hp,
        getManagedAttributes_uninitialized h hl hnone] at hv
    · rintro (h | h | h | h)
      · exact hp h
      · exact hn h
      · simp [hm] at h
      · exact hi h.1

def quietHost : Host where
  id := ascii "n1"
  state := .started
  stopMethod := .clean
  usePython := false
  checkpointing := false
  signedChar := true
  transport := none
  pendingMsgs := []
  actorTypes := [ascii "io.Button"]
  capabilities := [⟨ascii "io.button",false⟩]
  objects := [⟨ascii "b1",ascii "io.button",0,none⟩]
  fate := ⟨[],[],[],[]⟩
  sent := []

def buttonPort : Port where
  id := ascii "p1"
  name := ascii "state"
  peerPortId := ascii "p2"
  peerId := ascii "n2"
  direction := .dirOut
  peerPort := none
  tunnel := none
  state := .disconnected
  fifo := some (.init 2)
  retries := 0
  actor := 0

def buttonActor : Actor where
  type := ascii "io.Button"
  id := some (ascii "a1")
  name := some (ascii "app:button")
  stateWas := .actor
  state := .pending
  loaded := true
  instanceState := some (.button (ascii "b1") (some (msgpack.encodeStr (ascii "click"))))
  inPorts := []
  outPorts := [0]
  privateAttributes := [⟨ascii "_id",some (msgpack.encodeStr (ascii "a1"))⟩]
  managedAttributes := []

/-- A node with one button actor. -/
def buttonNode : Node where
  host := quietHost
  portMem := ⟨[some buttonPort]⟩
  actorMem := ⟨[some buttonActor]⟩
  tunnelMem := .empty
  linkMem := .empty
  actors := [0]
  tunnels := []
  links := []
  storageTunnel := none
  proxyTunnel := none
  proxyLink := none

/-- A button whose first allocation fails. -/
theorem serialize_repeatable_button_out_of_memory :
    SerializeRepeatable msgpack 0 false (buttonNode.withFate ⟨[false],[],[],[]⟩) :=
  (serialize_repeatable_iff msgpack 0 buttonActor false _ rfl).mpr
    (.inr (.inr (.inl (by decide))))

/-- Serialized twice in a row, a button writes the key `_calvinsys` twice and has lost its
text. -/
theorem button_serialized_twice :
    ¬SerializeRepeatable msgpack 0 false buttonNode ∧
    ∃ d t d' u, actorSerialize msgpack 0 false buttonNode=some (some d,t) ∧
      actorSerialize msgpack 0 false t=some (some d',u) ∧
      d.encode msgpack ≠ d'.encode msgpack ∧ ¬d'.KeysUnique := by
  refine ⟨?_,_,_,_,_,rfl,rfl,by decide +kernel,?_⟩
  · apply not_repeatable_of_changed (x := buttonActor) rfl
    intro r t h
    have ht : (actorSerialize msgpack 0 false buttonNode).all
        (fun r => r.2.actorMem.get 0 ≠ some buttonActor)=true := by decide +kernel
    simpa [h] using ht
  · simp [Doc.KeysUnique,Doc.EntriesUnique,attributeEntry,buttonActor]

end Atom

end CalvinConstrained
