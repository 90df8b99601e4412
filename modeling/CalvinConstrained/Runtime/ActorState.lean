import CalvinConstrained.Runtime.Walk

namespace CalvinConstrained

namespace Node

def portState (s : Node) (p : Ref) : Option PortState := (s.portMem.get p).map Port.state

def AllEnabled (s : Node) (x : Actor) : Prop := ∀ p ∈ x.ports, s.portState p=some .enabled

/-- An actor whose implementation is loaded and that has no port to be deleted is enabled
when all its ports are, and pending otherwise. -/
def FollowsPorts (s : Node) (a : Ref) : Prop :=
  ∀ x, s.actorMem.get a=some x → x.loaded=true →
    (∀ p ∈ x.ports, s.portState p ≠ some .doDelete) →
    (x.state=.enabled ↔ s.AllEnabled x) ∧ (¬s.AllEnabled x → x.state=.pending)

/-- `cc_actor_disconnect` leaves an actor pending, which an actor without ports must not
be. -/
def HasPort (s : Node) (a : Ref) : Prop :=
  ∀ x, s.actorMem.get a=some x → x.loaded=true → x.ports ≠ []

end Node

/-- The actors follow their ports, apart from those in `E`. The actor `e` is under
construction, and its port `o` is in no list yet. -/
structure StateInv (E : Ref → Prop) (e o : Option Ref) (s : Node) : Prop where
  owner : ∀ b x, s.actorMem.get b=some x → ∀ p ∈ x.ports,
    p<s.portMem.next ∧ ∀ y, s.portMem.get p=some y → y.actor=b
  nodup : ∀ b x, s.actorMem.get b=some x → x.ports.Nodup
  listed : ∀ a ∈ s.actors, a<s.actorMem.next
  follows : ∀ a ∈ s.actors, ¬E a → s.FollowsPorts a
  building : ∀ a, e=some a → a<s.actorMem.next ∧ a ∉ s.actors ∧
    ∀ x, s.actorMem.get a=some x → x.state=.pendingImpl → x.loaded=false
  unlinked : ∀ p, o=some p → p<s.portMem.next ∧
    (∀ b x, s.actorMem.get b=some x → p ∉ x.ports) ∧
    ∀ y, s.portMem.get p=some y → e=some y.actor

namespace StateInv

variable {E : Ref → Prop} {e o : Option Ref} {s t : Node}

/-- The fields of a port that matter here. -/
def ofPort (x : Port) : PortState × Ref := (x.state,x.actor)

theorem view (h : SameView ofPort Actor.shape s t) (hs : StateInv E e o s) :
    StateInv E e o t := by
  have hports : ∀ {x y : Actor}, x.shape=y.shape → x.ports=y.ports := by
    intro x y hxy
    simp only [Actor.shape,Prod.mk.injEq] at hxy
    rw [Actor.ports,Actor.ports,hxy.2.2.1,hxy.2.2.2]
  have hstate : ∀ p, t.portState p=s.portState p := by
    intro p
    have := congrArg (Option.map Prod.fst) (h.port p)
    rw [Option.map_map,Option.map_map] at this
    exact this
  have hactor : ∀ {p : Ref} {y : Port}, t.portMem.get p=some y →
      ∃ x, s.portMem.get p=some x ∧ x.actor=y.actor := by
    intro p y hy
    obtain ⟨x,hx,hxy⟩ := h.port_before hy
    exact ⟨x,hx,congrArg Prod.snd hxy⟩
  constructor
  · intro b y hb p hp
    obtain ⟨x,hx,hxy⟩ := h.actor_before hb
    rw [← hports hxy] at hp
    obtain ⟨hlt,how⟩ := hs.owner b x hx p hp
    refine ⟨by rwa [h.nextPort],fun z hz => ?_⟩
    obtain ⟨z',hz',he⟩ := hactor hz
    rw [← he,how z' hz']
  · intro b y hb
    obtain ⟨x,hx,hxy⟩ := h.actor_before hb
    rw [← hports hxy]
    exact hs.nodup b x hx
  · intro a ha
    rw [h.actors] at ha
    rw [h.nextActor]
    exact hs.listed a ha
  · intro a ha hE y hy hloaded hdel
    obtain ⟨x,hx,hxy⟩ := h.actor_before hy
    rw [h.actors] at ha
    have hall : t.AllEnabled y ↔ s.AllEnabled x := by
      simp only [Node.AllEnabled,hports hxy,hstate]
    simp only [Actor.shape,Prod.mk.injEq] at hxy
    have hfollows := hs.follows a ha hE x hx (hxy.1.trans hloaded) fun p hp => by
      rw [← hstate p]
      exact hdel p (by rwa [Actor.ports,← hxy.2.2.1,← hxy.2.2.2])
    rw [hall,← hxy.2.1]
    exact hfollows
  · intro a ha
    obtain ⟨hlt,hnot,himpl⟩ := hs.building a ha
    refine ⟨by rwa [h.nextActor],by rwa [h.actors],fun y hy hst => ?_⟩
    obtain ⟨x,hx,hxy⟩ := h.actor_before hy
    simp only [Actor.shape,Prod.mk.injEq] at hxy
    rw [← hxy.1]
    exact himpl x hx (hxy.2.1.trans hst)
  · intro p hp
    obtain ⟨hlt,hnot,how⟩ := hs.unlinked p hp
    refine ⟨by rwa [h.nextPort],fun b y hb => ?_,fun z hz => ?_⟩
    · obtain ⟨x,hx,hxy⟩ := h.actor_before hb
      rw [← hports hxy]
      exact hnot b x hx
    · obtain ⟨z',hz',he⟩ := hactor hz
      rw [← he,how z' hz']

theorem quiet (s t : Node) (h : SameView ofPort Actor.shape s t) (_ : SameTunnels s t)
    (hs : StateInv E e o s) : StateInv E e o t := hs.view h

theorem graph (s t : Node) (h : SameGraph s t) (hs : StateInv E e o s) : StateInv E e o t :=
  hs.view (h.sameView _ _)

theorem mono {F : Ref → Prop} (hEF : ∀ a, E a → F a) (hs : StateInv E e o s) :
    StateInv F e o s :=
  {hs with follows := fun a ha hF => hs.follows a ha fun hE => hF (hEF a hE)}

/-- Outside the list an exemption means nothing. -/
theorem of_not_listed {a : Ref} (ha : a ∉ s.actors) (hs : StateInv (fun b => E b ∨ b=a) e o s) :
    StateInv E e o s := by
  refine {hs with follows := fun b hb hE => hs.follows b hb ?_}
  rintro (h | rfl)
  · exact hE h
  · exact ha hb

/-- A port whose state changes puts nobody out of step but its actor. -/
theorem setPort {p : Ref} {x y : Port} (hx : s.portMem.get p=some x) (hxy : y.actor=x.actor)
    (hs : StateInv E e o s) :
    StateInv (fun b => E b ∨ b=x.actor) e o {s with portMem := s.portMem.set p y} := by
  have hget : ∀ {q : Ref} {z : Port}, (s.portMem.set p y).get q=some z →
      ∃ z', s.portMem.get q=some z' ∧ z.actor=z'.actor := by
    intro q z hz
    rw [Heap.get_set hx] at hz
    split at hz
    · next hq =>
      cases hz
      exact ⟨x,hq ▸ hx,hxy⟩
    · exact ⟨z,hz,rfl⟩
  constructor
  · intro b z hb q hq
    obtain ⟨hlt,how⟩ := hs.owner b z hb q hq
    refine ⟨by rwa [Heap.next_set],fun w hw => ?_⟩
    obtain ⟨w',hw',he⟩ := hget hw
    rw [he,how w' hw']
  · exact hs.nodup
  · exact hs.listed
  · intro a ha hE z hz hloaded hdel
    rw [not_or] at hE
    have hother : ∀ q ∈ z.ports,
        ({s with portMem := s.portMem.set p y} : Node).portState q=s.portState q := by
      intro q hq
      have hqp : q ≠ p := by
        intro hqp
        subst q
        exact hE.2 ((hs.owner a z hz p hq).2 x hx).symm
      change ((s.portMem.set p y).get q).map Port.state=_
      rw [Heap.get_set hx,if_neg hqp]
      rfl
    have hall : Node.AllEnabled {s with portMem := s.portMem.set p y} z ↔ s.AllEnabled z := by
      refine forall₂_congr fun q hq => ?_
      rw [hother q hq]
    rw [hall]
    refine hs.follows a ha hE.1 z hz hloaded fun q hq => ?_
    rw [← hother q hq]
    exact hdel q hq
  · exact hs.building
  · intro q hq
    obtain ⟨hlt,hnot,how⟩ := hs.unlinked q hq
    refine ⟨by rwa [Heap.next_set],hnot,fun w hw => ?_⟩
    obtain ⟨w',hw',he⟩ := hget hw
    rw [he,how w' hw']

/-- An actor whose state changes puts nobody out of step but itself. -/
theorem setState {a : Ref} {x : Actor} (state : ActorState) (hx : s.actorMem.get a=some x)
    (himpl : e=some a → state ≠ .pendingImpl) (hs : StateInv E e o s)
    (hfollows : ¬E a → a ∈ s.actors → x.loaded=true →
      (∀ p ∈ x.ports, s.portState p ≠ some .doDelete) →
      (state=.enabled ↔ s.AllEnabled x) ∧ (¬s.AllEnabled x → state=.pending)) :
    StateInv E e o {s with actorMem := s.actorMem.set a {x with state := state}} := by
  have hget : ∀ {b : Ref} {y : Actor},
      (s.actorMem.set a {x with state := state}).get b=some y →
      ∃ z, s.actorMem.get b=some z ∧ y.ports=z.ports := by
    intro b y hy
    rw [Heap.get_set hx] at hy
    split at hy
    · next hb =>
      cases hy
      exact ⟨x,hb ▸ hx,rfl⟩
    · exact ⟨y,hy,rfl⟩
  constructor
  · intro b y hb p hp
    obtain ⟨z,hz,hports⟩ := hget hb
    exact hs.owner b z hz p (hports ▸ hp)
  · intro b y hb
    obtain ⟨z,hz,hports⟩ := hget hb
    exact hports ▸ hs.nodup b z hz
  · intro b hb
    rw [Heap.next_set]
    exact hs.listed b hb
  · intro b hb hE y hy hloaded hdel
    change (s.actorMem.set a {x with state := state}).get b=some y at hy
    rw [Heap.get_set hx] at hy
    split at hy
    · next hba =>
      subst b
      cases hy
      exact hfollows hE hb hloaded hdel
    · exact hs.follows b hb hE y hy hloaded hdel
  · intro b hb
    obtain ⟨hlt,hnot,hold⟩ := hs.building b hb
    refine ⟨by rwa [Heap.next_set],hnot,fun y hy hst => ?_⟩
    change (s.actorMem.set a {x with state := state}).get b=some y at hy
    rw [Heap.get_set hx] at hy
    split at hy
    · next hba =>
      subst b
      cases hy
      exact absurd hst (himpl hb)
    · exact hold y hy hst
  · intro p hp
    obtain ⟨hlt,hnot,how⟩ := hs.unlinked p hp
    refine ⟨hlt,fun b y hb => ?_,how⟩
    obtain ⟨z,hz,hports⟩ := hget hb
    exact hports ▸ hnot b z hz

/-- A port whose actor is exempt may go. -/
theorem freePort {p : Ref} {x : Port} (hx : s.portMem.get p=some x) (hE : E x.actor)
    (hs : StateInv E e o s) : StateInv E e o {s with portMem := s.portMem.free p} := by
  have hget : ∀ {q : Ref} {z : Port}, (s.portMem.free p).get q=some z → s.portMem.get q=some z := by
    intro q z hz
    rw [Heap.get_free] at hz
    split at hz
    · cases hz
    · exact hz
  constructor
  · intro b z hb q hq
    obtain ⟨hlt,how⟩ := hs.owner b z hb q hq
    exact ⟨by rwa [Heap.next_free],fun w hw => how w (hget hw)⟩
  · exact hs.nodup
  · exact hs.listed
  · intro a ha hEa z hz hloaded hdel
    have hother : ∀ q ∈ z.ports,
        ({s with portMem := s.portMem.free p} : Node).portState q=s.portState q := by
      intro q hq
      have hqp : q ≠ p := by
        intro hqp
        subst q
        exact hEa ((hs.owner a z hz p hq).2 x hx ▸ hE)
      change ((s.portMem.free p).get q).map Port.state=_
      rw [Heap.get_free,if_neg hqp]
      rfl
    have hall : Node.AllEnabled {s with portMem := s.portMem.free p} z ↔ s.AllEnabled z := by
      refine forall₂_congr fun q hq => ?_
      rw [hother q hq]
    rw [hall]
    refine hs.follows a ha hEa z hz hloaded fun q hq => ?_
    rw [← hother q hq]
    exact hdel q hq
  · exact hs.building
  · intro q hq
    obtain ⟨hlt,hnot,how⟩ := hs.unlinked q hq
    exact ⟨by rwa [Heap.next_free],hnot,fun w hw => how w (hget hw)⟩

/-- An actor that is gone follows nothing. -/
theorem unlink {a : Ref} {actors : List Ref} {host : Host} (hsub : actors.Sublist s.actors)
    (hs : StateInv (fun b => E b ∨ b=a) e o s) :
    StateInv E e o {s with host := host,actors := actors,actorMem := s.actorMem.free a} := by
  have hget : ∀ {b : Ref} {x : Actor}, (s.actorMem.free a).get b=some x →
      b ≠ a ∧ s.actorMem.get b=some x := by
    intro b x hx
    rw [Heap.get_free] at hx
    split at hx
    · cases hx
    · next hb => exact ⟨hb,hx⟩
  constructor
  · exact fun b x hb => hs.owner b x (hget hb).2
  · exact fun b x hb => hs.nodup b x (hget hb).2
  · intro b hb
    rw [Heap.next_free]
    exact hs.listed b (hsub.subset hb)
  · intro b hb hE x hx
    obtain ⟨hba,hx⟩ := hget hx
    exact hs.follows b (hsub.subset hb) (fun h => h.elim hE hba) x hx
  · intro b hb
    obtain ⟨hlt,hnot,himpl⟩ := hs.building b hb
    exact ⟨by rwa [Heap.next_free],fun h => hnot (hsub.subset h),fun x hx => himpl x (hget hx).2⟩
  · intro p hp
    obtain ⟨hlt,hnot,how⟩ := hs.unlinked p hp
    exact ⟨hlt,fun b x hb => hnot b x (hget hb).2,how⟩

theorem drop {actors : List Ref} (hsub : actors.Sublist s.actors) (hs : StateInv E e o s) :
    StateInv E e o {s with actors := actors} :=
  ⟨hs.owner,hs.nodup,fun a ha => hs.listed a (hsub.subset ha),
    fun a ha => hs.follows a (hsub.subset ha),fun a ha => ⟨(hs.building a ha).1,
      fun h => (hs.building a ha).2.1 (hsub.subset h),(hs.building a ha).2.2⟩,hs.unlinked⟩

theorem forget (hs : StateInv E e o s) : StateInv E none none s :=
  {hs with
    building := fun _ h => (by cases h)
    unlinked := fun _ h => (by cases h)}

theorem allocActor {x : Actor} (hports : x.ports=[])
    (himpl : x.state=.pendingImpl → x.loaded=false) (hs : StateInv E none none s) :
    StateInv E (some s.actorMem.next) none {s with actorMem := s.actorMem.alloc x} := by
  have hget : ∀ {b : Ref} {y : Actor}, (s.actorMem.alloc x).get b=some y →
      y=x ∧ b=s.actorMem.next ∨ s.actorMem.get b=some y := by
    intro b y hy
    rw [Heap.get_alloc] at hy
    split at hy
    · next hb =>
      cases hy
      exact .inl ⟨rfl,hb⟩
    · exact .inr hy
  constructor
  · intro b y hb p hp
    obtain ⟨rfl,-⟩ | hb := hget hb
    · rw [hports] at hp
      cases hp
    · exact hs.owner b y hb p hp
  · intro b y hb
    obtain ⟨rfl,-⟩ | hb := hget hb
    · rw [hports]
      exact List.nodup_nil
    · exact hs.nodup b y hb
  · intro b hb
    rw [Heap.next_alloc]
    exact Nat.lt_succ_of_lt (hs.listed b hb)
  · intro b hb hE y hy
    obtain ⟨-,hb'⟩ | hy := hget hy
    · exact absurd (hs.listed b hb) (by rw [hb']; exact Nat.lt_irrefl _)
    · exact hs.follows b hb hE y hy
  · intro b hb
    cases hb
    refine ⟨by rw [Heap.next_alloc]; exact Nat.lt_succ_self _,?_,fun y hy => ?_⟩
    · exact fun hb => Nat.lt_irrefl _ (hs.listed _ hb)
    · obtain ⟨rfl,-⟩ | hy := hget hy
      · exact himpl
      · rw [Heap.get_next] at hy
        cases hy
  · intro p hp
    cases hp

theorem allocPort {a : Ref} {y : Port} (hy : y.actor=a) (hs : StateInv E (some a) none s) :
    StateInv E (some a) (some s.portMem.next) {s with portMem := s.portMem.alloc y} := by
  have hold : ∀ {p : Ref} {b : Ref} {x : Actor}, s.actorMem.get b=some x → p ∈ x.ports →
      (s.portMem.alloc y).get p=s.portMem.get p := by
    intro p b x hb hp
    rw [Heap.get_alloc,if_neg (Nat.ne_of_lt (hs.owner b x hb p hp).1)]
  constructor
  · intro b x hb p hp
    obtain ⟨hlt,how⟩ := hs.owner b x hb p hp
    refine ⟨by rw [Heap.next_alloc]; exact Nat.lt_succ_of_lt hlt,fun z hz => how z ?_⟩
    exact (hold hb hp).symm.trans hz
  · exact hs.nodup
  · exact hs.listed
  · intro b hb hE x hx hloaded hdel
    have hother : ∀ q ∈ x.ports,
        ({s with portMem := s.portMem.alloc y} : Node).portState q=s.portState q :=
      fun q hq => congrArg (Option.map Port.state) (hold hx hq)
    have hall : Node.AllEnabled {s with portMem := s.portMem.alloc y} x ↔ s.AllEnabled x := by
      refine forall₂_congr fun q hq => ?_
      rw [hother q hq]
    rw [hall]
    refine hs.follows b hb hE x hx hloaded fun q hq => ?_
    rw [← hother q hq]
    exact hdel q hq
  · exact hs.building
  · intro p hp
    cases hp
    refine ⟨by rw [Heap.next_alloc]; exact Nat.lt_succ_self _,fun b x hb hp => ?_,fun z hz => ?_⟩
    · exact Nat.lt_irrefl _ (hs.owner b x hb _ hp).1
    · change (s.portMem.alloc y).get s.portMem.next=some z at hz
      rw [Heap.get_alloc,if_pos rfl] at hz
      cases hz
      rw [hy]

theorem linkPort {a p : Ref} {x : Actor} {direction : PortDirection}
    (hx : s.actorMem.get a=some x) (hs : StateInv E (some a) (some p) s) :
    StateInv E (some a) none
      {s with actorMem := s.actorMem.set a (x.withPort direction p)} := by
  obtain ⟨hlt,hnot,how⟩ := hs.unlinked p rfl
  obtain ⟨hlta,hunlisted,himpl⟩ := hs.building a rfl
  have hperm := x.ports_withPort direction p
  constructor
  · intro b y hb q hq
    change (s.actorMem.set a (x.withPort direction p)).get b=some y at hb
    rw [Heap.get_set hx] at hb
    split at hb
    · next hba =>
      subst b
      cases hb
      obtain rfl | hq := List.mem_cons.mp (hperm.mem_iff.mp hq)
      · exact ⟨hlt,fun z hz => (Option.some.inj (how z hz)).symm⟩
      · exact hs.owner a x hx q hq
    · exact hs.owner b y hb q hq
  · intro b y hb
    change (s.actorMem.set a (x.withPort direction p)).get b=some y at hb
    rw [Heap.get_set hx] at hb
    split at hb
    · cases hb
      exact hperm.nodup_iff.mpr (List.nodup_cons.mpr ⟨hnot a x hx,hs.nodup a x hx⟩)
    · exact hs.nodup b y hb
  · intro b hb
    rw [Heap.next_set]
    exact hs.listed b hb
  · intro b hb hE y hy
    change (s.actorMem.set a (x.withPort direction p)).get b=some y at hy
    rw [Heap.get_set hx,if_neg fun h : b=a => hunlisted (h ▸ hb)] at hy
    exact hs.follows b hb hE y hy
  · intro b hb
    cases hb
    refine ⟨by rwa [Heap.next_set],hunlisted,fun y hy => ?_⟩
    change (s.actorMem.set a (x.withPort direction p)).get a=some y at hy
    rw [Heap.get_set hx,if_pos rfl] at hy
    cases hy
    intro hstate
    have hst : (x.withPort direction p).state=x.state := by cases direction <;> rfl
    have hl : (x.withPort direction p).loaded=x.loaded := by cases direction <;> rfl
    rw [hl]
    exact himpl x hx (hst ▸ hstate)
  · intro q hq
    cases hq

/-- An actor that enters the list is exempt until its ports are connected. -/
theorem addActor {a : Ref} (hs : StateInv E (some a) none s) :
    StateInv (fun b => E b ∨ b=a) none none {s with actors := s.actors++[a]} := by
  constructor
  · exact hs.owner
  · exact hs.nodup
  · intro b hb
    obtain hb | hb := List.mem_append.mp hb
    · exact hs.listed b hb
    · rw [List.mem_singleton.mp hb]
      exact (hs.building a rfl).1
  · intro b hb hE
    rw [not_or] at hE
    obtain hb | hb := List.mem_append.mp hb
    · exact hs.follows b hb hE.1
    · exact absurd (List.mem_singleton.mp hb) hE.2
  · intro b hb
    cases hb
  · intro p hp
    cases hp

/-- An actor without its implementation follows nothing yet. -/
theorem of_not_loaded {a : Ref} (ha : ∀ x, s.actorMem.get a=some x → x.loaded=false)
    (hs : StateInv (fun b => E b ∨ b=a) e o s) : StateInv E e o s := by
  refine {hs with follows := fun b hb hE => ?_}
  by_cases hba : b=a
  · subst b
    intro x hx hloaded
    rw [ha x hx] at hloaded
    cases hloaded
  · exact hs.follows b hb fun h => h.elim hE hba

theorem load {a : Ref} {x : Actor} {state : Option InstanceState}
    (hx : s.actorMem.get a=some x) (hs : StateInv E none none s) :
    StateInv (fun b => E b ∨ b=a) none none
      {s with actorMem := s.actorMem.set a {x with loaded := true,instanceState := state}} := by
  have hget : ∀ {b : Ref} {y : Actor},
      (s.actorMem.set a {x with loaded := true,instanceState := state}).get b=some y →
      ∃ z, s.actorMem.get b=some z ∧ y.ports=z.ports ∧ (b ≠ a → y=z) := by
    intro b y hy
    rw [Heap.get_set hx] at hy
    split at hy
    · next hb =>
      cases hy
      exact ⟨x,hb ▸ hx,rfl,fun h => absurd hb h⟩
    · exact ⟨y,hy,rfl,fun _ => rfl⟩
  constructor
  · intro b y hb p hp
    obtain ⟨z,hz,hports,-⟩ := hget hb
    exact hs.owner b z hz p (hports ▸ hp)
  · intro b y hb
    obtain ⟨z,hz,hports,-⟩ := hget hb
    exact hports ▸ hs.nodup b z hz
  · intro b hb
    rw [Heap.next_set]
    exact hs.listed b hb
  · intro b hb hE y hy
    rw [not_or] at hE
    obtain ⟨z,hz,-,hyz⟩ := hget hy
    rw [hyz hE.2]
    exact hs.follows b hb hE.1 z hz
  · intro b hb
    cases hb
  · intro p hp
    cases hp

end StateInv

namespace Atom

/-- The state that `cc_actor_port_state_changed` computes. -/
theorem portsState_spec {ps : List Ref} {s t : Node} {state : ActorState}
    (h : portsState ps s=some (state,t)) : t=s ∧ state ≠ .pendingImpl ∧
    ((∀ p ∈ ps, s.portState p ≠ some .doDelete) →
      (state=.enabled ↔ ∀ p ∈ ps, s.portState p=some .enabled) ∧
      ((¬∀ p ∈ ps, s.portState p=some .enabled) → state=.pending)) := by
  induction ps with
  | nil =>
    cases h
    simp
  | cons p ps ih =>
    obtain ⟨x,u,hx,h⟩ := bind_eq_some.mp h
    obtain ⟨hy,hu⟩ := port_eq_some hx
    subst u
    have hstate : s.portState p=some x.state := by rw [Node.portState,hy,Option.map_some]
    split at h
    · next hdel =>
      cases h
      refine ⟨rfl,by decide,fun hnone => ?_⟩
      exact absurd (hstate.trans (congrArg some hdel)) (hnone p List.mem_cons_self)
    · split at h
      · next hen =>
        cases h
        have hnot : ¬∀ q ∈ p::ps, s.portState q=some .enabled := by
          intro hall
          exact hen (Option.some.inj (hstate.symm.trans (hall p List.mem_cons_self)))
        refine ⟨rfl,by decide,fun _ => ⟨⟨?_,fun h => absurd h hnot⟩,fun _ => rfl⟩⟩
        exact fun h => by cases h
      · next hen =>
        have hen' : s.portState p=some .enabled := hstate.trans (congrArg some (not_not.mp hen))
        obtain ⟨ht,himpl,hrest⟩ := ih h
        refine ⟨ht,himpl,fun hnone => ?_⟩
        simp only [List.forall_mem_cons,hen',true_and]
        exact hrest fun q hq => hnone q (List.mem_cons_of_mem _ hq)

section StateInv

variable {E : Ref → Prop} {e o : Option Ref}

open StateInv (quiet graph)

/-- The actor follows its ports once they have told it. -/
theorem actorPortStateChanged_follows (a : Ref) :
    Ensures (StateInv (fun b => E b ∨ b=a) e o) (actorPortStateChanged a) fun _ =>
      StateInv E e o := by
  intro s u t h hs
  obtain ⟨x,s₁,hread,h₁⟩ := bind_eq_some.mp h
  obtain ⟨hx,hs₁⟩ := actor_eq_some hread
  subst s₁
  obtain ⟨state,s₂,hstate,h₂⟩ := bind_eq_some.mp h₁
  obtain ⟨hs₂,himpl,hright⟩ := portsState_spec hstate
  subst s₂
  obtain ⟨y,s₃,hread,h₃⟩ := bind_eq_some.mp h₂
  obtain ⟨hy,hs₃⟩ := actor_eq_some hread
  subst s₃
  cases hx.symm.trans hy
  cases h₃
  have hmid := StateInv.setState state hx (fun _ => himpl) hs fun hE _ _ _ => absurd (Or.inr rfl) hE
  refine {hmid with follows := fun b hb hE => ?_}
  by_cases hba : b=a
  · subst b
    intro z hz hloaded hdel
    change (s.actorMem.set a {x with state := state}).get a=some z at hz
    rw [Heap.get_set hx,if_pos rfl] at hz
    cases hz
    exact hright hdel
  · exact hmid.follows b hb fun h => h.elim hE hba

theorem preserves_portSetState (p : Ref) (state : PortState) :
    Preserves (StateInv E e o) (portSetState p state) := by
  refine ensures_bind (ensures_port p) fun x => ?_
  refine ensures_bind (Q := fun _ => StateInv (fun b => E b ∨ b=x.actor) e o) ?_ fun _ =>
    actorPortStateChanged_follows x.actor
  rintro s u t hr ⟨hs,hx⟩
  cases hr
  exact hs.setPort hx rfl

/-- A port tells its actor, which follows its ports again. -/
theorem portSetState_tells (a p : Ref) (state : PortState) :
    Ensures (fun s => StateInv (fun b => E b ∨ b=a) e o s ∧ ∀ x, s.portMem.get p=some x → x.actor=a)
      (portSetState p state) fun _ => StateInv E e o := by
  refine ensures_bind (ensures_port p) fun x => ?_
  refine ensures_bind (Q := fun _ s => StateInv (fun b => E b ∨ b=a) e o s ∧ x.actor=a) ?_
    fun _ => ?_
  · rintro s u t hr ⟨⟨hs,hactor⟩,hx⟩
    cases hr
    have ha := hactor x hx
    refine ⟨StateInv.mono ?_ (hs.setPort hx rfl),ha⟩
    exact fun b hb => hb.elim id fun h => .inr (h.trans ha)
  · intro s u t h hs
    obtain ⟨hs,rfl⟩ := hs
    exact actorPortStateChanged_follows x.actor s u t h hs

theorem stateInv_port (p : Ref) : PortRules (StateInv E e o) p where
  graph := graph
  setState := preserves_portSetState p
  tunnel _ := preserves_updatePort quiet p fun _ => rfl
  peerId _ := preserves_updatePort quiet p fun _ => rfl
  fifo := preserves_portFifoCancel quiet (fun _ _ => rfl) p

theorem stateInv_rules : PeerRules (fun _ => True) (StateInv E e o) where
  port p _ := stateInv_port p
  peer p _ _ _ _ := preserves_updatePort quiet p fun _ => rfl
  clear p _ := preserves_updatePort quiet p fun _ => rfl

theorem stateInv_disconnectEach (unrefTunnel : Bool) (ps : List Ref) :
    Preserves (StateInv E e o) (disconnectEach unrefTunnel ps) :=
  stateInv_rules.disconnectEach unrefTunnel (fun _ _ => trivial) fun _ _ _ _ _ _ _ _ => trivial

/-- `cc_port_set_state` changes the state of one port. -/
theorem portSetState_portState {p : Ref} {state : PortState} {s t : Node}
    (h : portSetState p state s=some ((),t)) (r : Ref) :
    t.portState r=if r=p then some state else s.portState r := by
  obtain ⟨x,y,actorState,hx,-,rfl⟩ := portSetState_eq h
  change ((s.portMem.set p _).get r).map Port.state=_
  rw [Heap.get_set hx]
  split <;> rfl

/-- A port that is not enabled stays so while ports are disconnected. -/
theorem disconnect_keeps_down (r p : Ref) (unrefTunnel : Bool) :
    Preserves (fun s => s.portState r ≠ some .enabled) (portDisconnect p unrefTunnel) := by
  have hview : ∀ v w : Node, SameView Port.state (fun _ => ()) v w → SameTunnels v w →
      v.portState r ≠ some .enabled → w.portState r ≠ some .enabled :=
    fun v w hvw _ hv hw => hv ((hvw.port r).symm.trans hw)
  have hgraph : ∀ v w : Node, SameGraph v w → v.portState r ≠ some .enabled →
      w.portState r ≠ some .enabled := by
    intro v w hvw hv
    rwa [Node.portState,hvw.1]
  have hset : ∀ q, Preserves (fun s => s.portState r ≠ some .enabled)
      (portSetState q .disconnected) := by
    intro q v a w hw hv
    rw [portSetState_portState hw]
    split
    · simp
    · exact hv
  refine preserves_bind (preserves_bind (preserves_port p) fun x => ?_) fun _ =>
    preserves_bind (preserves_bind (preserves_port p) fun x => ?_) fun _ =>
      preserves_bind (preserves_updatePort hview p fun _ => rfl) fun _ =>
        preserves_bind (hset p) fun _ => preserves_portFifoCancel hview (fun _ _ => rfl) p
  · split
    · refine preserves_bind (preserves_sendPortDisconnect (view_host hview) p) fun _ =>
        preserves_bind (preserves_port p) fun x => ?_
      split
      · exact preserves_pure _
      · exact preserves_bind (preserves_tunnelRemoveRef hgraph _) fun _ =>
          preserves_updatePort hview p fun _ => rfl
    · exact preserves_updatePort hview p fun _ => rfl
  · split
    · exact preserves_pure _
    · exact preserves_bind (hset _) fun _ => preserves_updatePort hview p fun _ => rfl

theorem disconnect_down (p : Ref) (unrefTunnel : Bool) :
    Ensures (fun _ => True) (portDisconnect p unrefTunnel) fun _ s =>
      s.portState p ≠ some .enabled := by
  have hview : ∀ v w : Node, SameView Port.state (fun _ => ()) v w → SameTunnels v w →
      v.portState p ≠ some .enabled → w.portState p ≠ some .enabled :=
    fun v w hvw _ hv hw => hv ((hvw.port p).symm.trans hw)
  have htrue : ∀ {α : Type} (x : Atom α), Preserves (fun _ => True) x := fun _ _ _ _ _ _ => trivial
  refine ensures_bind (htrue _) fun _ => ensures_bind (htrue _) fun _ => ensures_bind (htrue _)
    fun _ => ensures_bind (Q := fun _ (s : Node) => s.portState p ≠ some .enabled) ?_ fun _ =>
      preserves_portFifoCancel hview (fun _ _ => rfl) p
  intro s a t ht _
  rw [portSetState_portState ht,if_pos rfl]
  simp

theorem disconnectEach_down (unrefTunnel : Bool) (p : Ref) (ps : List Ref) :
    Ensures (fun _ => True) (disconnectEach unrefTunnel (p::ps)) fun _ s =>
      s.portState p ≠ some .enabled := by
  refine ensures_bind (disconnect_down p _) fun _ => ?_
  induction ps with
  | nil => exact preserves_pure _
  | cons q ps ih => exact preserves_bind (disconnect_keeps_down p q _) fun _ => ih

/-- Once a port of `a` is disconnected, `a` follows its ports. -/
theorem disconnect_tells (a p : Ref) (unrefTunnel : Bool) :
    Ensures (fun s => StateInv (fun b => E b ∨ b=a) e o s ∧ ∀ x, s.portMem.get p=some x → x.actor=a)
      (portDisconnect p unrefTunnel) fun _ => StateInv E e o := by
  have hfixed : ∀ v w : Node, SameView fixedPart (fun _ => ()) v w →
      (∀ x, v.portMem.get p=some x → x.actor=a) → ∀ x, w.portMem.get p=some x → x.actor=a := by
    intro v w hvw hv x hx
    obtain ⟨y,hy,hxy⟩ := hvw.port_before hx
    have hactor : y.actor=x.actor := congrArg (fun z => z.2.2.2.2) hxy
    rw [← hactor,hv y hy]
  have hkeep := fixed_rules hfixed fun _ _ => rfl
  have hrules := stateInv_rules (E := fun b => E b ∨ b=a) (e := e) (o := o)
  have hany : ∀ {P : Node → Prop} (s : Node) (x : Port) (q : Ref), P s →
      s.portMem.get p=some x → x.peerPort=some q → True := fun _ _ _ _ _ _ => trivial
  have hp := hrules.port p trivial
  have hp' := hkeep.port p trivial
  exact ensures_bind (ensures_and (hp.leaveTunnel _) (hp'.leaveTunnel _)) fun _ =>
    ensures_bind (ensures_and (hrules.leavePeer trivial hany) (hkeep.leavePeer trivial hany)) fun _ =>
      ensures_bind (ensures_and (hp.peerId _) (hp'.peerId _)) fun _ =>
        ensures_bind (portSetState_tells a p _) fun _ => (stateInv_port p).fifo

theorem disconnectPorts_tells (a : Ref) (unrefTunnel : Bool) :
    Ensures (fun s => StateInv (fun b => E b ∨ b=a) e o s ∧ s.HasPort a)
      (actorDisconnectPorts a unrefTunnel) fun _ => StateInv E e o := by
  refine ensures_bind (ensures_actor a) fun x => ?_
  rintro s u t h ⟨⟨hs,hport⟩,hx⟩
  cases hps : x.ports with
  | nil =>
    rw [hps] at h
    cases h
    refine hs.of_not_loaded fun y hy => ?_
    cases hx.symm.trans hy
    cases hloaded : x.loaded with
    | false => rfl
    | true => exact absurd hps (hport x hx hloaded)
  | cons p ps =>
    rw [hps] at h
    have hrest := ensures_bind (disconnect_tells (E := E) (e := e) (o := o) a p unrefTunnel)
      fun _ => stateInv_disconnectEach unrefTunnel ps
    refine hrest s u t h ⟨hs,fun y hy => (hs.owner a x hx p ?_).2 y hy⟩
    rw [hps]
    exact List.mem_cons_self

theorem actorDisconnect_follows (a : Ref) (unrefTunnel : Bool) :
    Ensures (fun s => StateInv E e o s ∧ s.HasPort a) (actorDisconnect a unrefTunnel) fun _ =>
      StateInv E e o := by
  rintro s b t h ⟨hs,hport⟩
  obtain ⟨⟨⟩,u,h₁,h₂⟩ := bind_eq_some.mp h
  obtain ⟨x,s',hread,h₁⟩ := bind_eq_some.mp h₁
  obtain ⟨hx,hs'⟩ := actor_eq_some hread
  subst s'
  have hu : StateInv E e o u := stateInv_disconnectEach _ _ s () u h₁ hs
  have hkeep : ∀ v w : Node, SameView fixedPart (fun z => (z.loaded,z.ports)) v w →
      (v.actorMem.get a).map (fun z => (z.loaded,z.ports))=some (x.loaded,x.ports) →
      (w.actorMem.get a).map (fun z => (z.loaded,z.ports))=some (x.loaded,x.ports) :=
    fun v w hvw hv => (hvw.actor a).trans hv
  have hshape : (u.actorMem.get a).map (fun z => (z.loaded,z.ports))=some (x.loaded,x.ports) :=
    (fixed_rules hkeep fun _ _ => rfl).disconnectEach _ (fun _ _ => trivial)
      (fun _ _ _ _ _ _ _ _ => trivial) s () u h₁ (by simp [hx])
  obtain ⟨y,u',hread,h₃⟩ := bind_eq_some.mp h₂
  obtain ⟨hy,hu'⟩ := actor_eq_some hread
  subst u'
  cases h₃
  rw [hy,Option.map_some,Option.some.injEq,Prod.mk.injEq] at hshape
  refine hu.setState .pending hy (fun _ => by decide) fun _ _ hloaded _ => ?_
  have hne := hport x hx (hshape.1.symm.trans hloaded)
  cases hps : x.ports with
  | nil => exact absurd hps hne
  | cons p ps =>
    rw [hps] at h₁ hshape
    have hdown := disconnectEach_down unrefTunnel p ps s () u h₁ trivial
    have hnot : ¬u.AllEnabled y := fun hall => hdown (hall p (by rw [hshape.2]; simp))
    exact ⟨⟨(fun h => by cases h),fun h => absurd h hnot⟩,fun _ => rfl⟩

theorem actorDisconnectEach_follows (unrefTunnel : Bool) (as : List Ref) :
    Ensures (fun s => StateInv E e o s ∧ ∀ a ∈ as, s.HasPort a)
      (actorDisconnectEach unrefTunnel as) fun _ => StateInv E e o := by
  have hkeep : ∀ a, ∀ v w : Node, SameView fixedPart (fun z => (z.loaded,z.ports)) v w →
      v.HasPort a → w.HasPort a := by
    intro a v w hvw hv z hz hloaded
    obtain ⟨y,hy,hyz⟩ := hvw.actor_before hz
    rw [Prod.mk.injEq] at hyz
    rw [← hyz.2]
    exact hv y hy (hyz.1.trans hloaded)
  induction as with
  | nil => exact ensures_mono (preserves_pure _) (fun _ h => h) fun _ _ h => h.1
  | cons a as ih =>
    refine ensures_bind (Q := fun _ s => StateInv E e o s ∧ ∀ b ∈ as, s.HasPort b) ?_ fun _ => ih
    intro s u t h hs
    refine ⟨actorDisconnect_follows a _ s u t h ⟨hs.1,hs.2 a List.mem_cons_self⟩,fun b hb => ?_⟩
    have hquiet : ∀ v w : Node, SameView fixedPart (fun z => (z.loaded,z.ports)) v w →
        SameTunnels v w → v.HasPort b → w.HasPort b := fun v w hvw _ => hkeep b v w hvw
    have hrest : Preserves (fun v : Node => v.HasPort b) (actorDisconnect a unrefTunnel) :=
      preserves_bind (preserves_bind (preserves_actor a) fun x =>
        (fixed_rules (hkeep b) fun _ _ => rfl).disconnectEach _ (fun _ _ => trivial)
          fun _ _ _ _ _ _ _ _ => trivial) fun _ =>
          ensures_bind (ensures_actor a) fun y => ensures_setActor hquiet rfl
    exact hrest s u t h (hs.2 b (List.mem_cons_of_mem _ hb))

/-- A new proxy, or a reset, takes the tunnels from all actors. -/
theorem forgetProxy_follows :
    Ensures (fun s => StateInv E e o s ∧ ∀ a ∈ s.actors, s.HasPort a) nodeForgetProxy fun _ =>
      StateInv E e o := by
  have hgraph : ∀ v w : Node, SameGraph v w → (StateInv E e o v ∧ ∀ a ∈ v.actors, v.HasPort a) →
      StateInv E e o w ∧ ∀ a ∈ w.actors, w.HasPort a := by
    rintro v w hvw ⟨hv,hports⟩
    refine ⟨graph v w hvw hv,fun a ha x hx => ?_⟩
    rw [hvw.2.2.1] at ha
    rw [hvw.2.1] at hx
    exact hports a ha x hx
  refine ensures_bind preserves_get fun s => ensures_bind (preserves_tunnelFreeAll hgraph _) fun _ =>
    ensures_bind (preserves_modify fun v hv => hgraph v _ ⟨rfl,rfl,rfl,.refl⟩ hv) fun _ =>
      ensures_bind preserves_get fun _ => ensures_bind (preserves_linkFreeAll hgraph _) fun _ =>
        ensures_bind (preserves_modify fun v hv => hgraph v _ ⟨rfl,rfl,rfl,.refl⟩ hv) fun _ =>
          ensures_bind (ensures_get (Q := fun a s => StateInv E e o s ∧ ∀ b ∈ a.actors, s.HasPort b)
            fun v hv => hv) fun v => actorDisconnectEach_follows false v.actors

theorem portRelease_follows (p : Ref) :
    Ensures (fun s => StateInv E e o s ∧ ∀ x, s.portMem.get p=some x → E x.actor) (portRelease p)
      fun _ => StateInv E e o := by
  have hquiet : ∀ v w : Node, SameView StateInv.ofPort Actor.shape v w → SameTunnels v w →
      (∀ x, v.portMem.get p=some x → E x.actor) → ∀ x, w.portMem.get p=some x → E x.actor := by
    intro v w hvw _ hv x hx
    obtain ⟨y,hy,hxy⟩ := hvw.port_before hx
    have hactor : y.actor=x.actor := congrArg Prod.snd hxy
    exact hactor ▸ hv y hy
  have hgraph : ∀ v w : Node, SameGraph v w → (∀ x, v.portMem.get p=some x → E x.actor) →
      ∀ x, w.portMem.get p=some x → E x.actor := by
    intro v w hvw hv
    rwa [hvw.1]
  have hdetach : Preserves (fun s : Node => ∀ x, s.portMem.get p=some x → E x.actor)
      (portDetach p) := by
    refine preserves_bind (preserves_port p) fun x => ?_
    split
    · exact preserves_pure _
    · exact preserves_bind (preserves_tunnelRemoveRef hgraph _) fun _ =>
        preserves_updatePort hquiet p fun _ => rfl
  refine ensures_bind (ensures_and ((stateInv_port p).detach) hdetach) fun _ =>
    ensures_bind (ensures_port p) fun x => ?_
  have hfree : Ensures (fun s => (StateInv E e o s ∧ ∀ x, s.portMem.get p=some x → E x.actor) ∧
      s.portMem.get p=some x) (modify fun s => {s with portMem := s.portMem.free p})
      fun _ => StateInv E e o :=
    ensures_modify fun s hs => hs.1.1.freePort hs.2 (hs.1.2 x hs.2)
  split
  · exact ensures_bind preserves_undefined fun _ => hfree
  · exact hfree

theorem freePorts_follows (a : Ref) (x : Actor) (removeFromRegistry : Bool) (ps : List Ref)
    (hps : ∀ p ∈ ps, p ∈ x.ports) :
    Ensures (fun s => StateInv (fun b => E b ∨ b=a) e o s ∧ s.actorMem.get a=some x)
      (freePorts removeFromRegistry ps) fun _ => StateInv (fun b => E b ∨ b=a) e o := by
  induction ps with
  | nil => exact ensures_mono (preserves_pure _) (fun _ h => h) fun _ _ h => h.1
  | cons p ps ih =>
    have hkeep : Preserves (fun s => s.actorMem.get a=some x) (portFree p removeFromRegistry) :=
      preserves_portFree (M := fun _ _ => True) (fun v w _ hmem _ hv => by rwa [hmem]) _ p
    refine ensures_bind (ensures_keep ?_ hkeep) fun _ =>
      ih fun q hq => hps q (List.mem_cons_of_mem _ hq)
    have hrelease : Ensures (fun s => StateInv (fun b => E b ∨ b=a) e o s ∧ s.actorMem.get a=some x)
        (portRelease p) fun _ => StateInv (fun b => E b ∨ b=a) e o :=
      ensures_mono (portRelease_follows p) (fun s hs => ⟨hs.1,fun y hy =>
        .inr ((hs.1.owner a x hs.2 p (hps p List.mem_cons_self)).2 y hy)⟩) fun _ _ h => h
    cases removeFromRegistry with
    | false => exact hrelease
    | true =>
      refine ensures_bind (preserves_sendRemovePort ?_ p) fun _ => hrelease
      exact fun v h hm hv => ⟨graph v _ ⟨rfl,rfl,rfl,hm⟩ hv.1,hv.2⟩

/-- An actor of the node, or one under construction, is freed. -/
theorem actorFree_follows (a : Ref) (removeFromRegistry : Bool) :
    Preserves (StateInv E e o) (actorFree a removeFromRegistry) := by
  refine ensures_actorFree (Q := StateInv (fun b => E b ∨ b=a) e o)
    (preserves_callbackIfSet quiet (fun _ _ => Actor.shape_of_core) (fun _ _ => rfl) a)
    (preserves_closeOwn (view_objects quiet) a) (fun x => ?_) ?_
  · exact ensures_mono (freePorts_follows a x removeFromRegistry x.ports fun _ h => h)
      (fun s hs => ⟨hs.1.mono fun _ h => .inl h,hs.2⟩) fun _ _ h => h
  · intro s u t h hs
    obtain ⟨host,rfl⟩ := actorUnlink_eq h
    exact hs.unlink List.eraseP_sublist

theorem actorPop_follows : Preserves (StateInv E e o) actorPop := by
  intro s u t h hs
  obtain ⟨v,w,hv,h⟩ := bind_eq_some.mp h
  cases hv
  cases hl : s.actors with
  | nil =>
    simp only [hl] at h
    cases h
    exact hs
  | cons a rest =>
    simp only [hl] at h
    obtain ⟨⟨⟩,w,hw,h⟩ := bind_eq_some.mp h
    cases hw
    exact actorFree_follows a true _ _ _ h (hs.drop (by rw [hl]; exact List.sublist_cons_self a rest))

theorem actorAlloc_follows {type : Bytes} {state : ActorState} {loaded : Bool}
    {instanceState : Option InstanceState} (himpl : state=.pendingImpl → loaded=false) :
    Ensures (StateInv E none none) (actorAlloc type state loaded instanceState) fun a =>
      StateInv E (some a) none := by
  intro s a t h hs
  cases h
  exact hs.allocActor rfl himpl

theorem newActor_follows (type : Text) :
    Ensures (StateInv E none none) (actorCreateFromType type) fun r => StateInv E r none := by
  have hh : ∀ s h, s.host.Moves h → StateInv E none none s → StateInv E none none {s with host := h} :=
    fun s h hm => view_host quiet s h hm
  have hnone : Ensures (StateInv E none none) (pure none : Atom (Option Ref)) fun r =>
      StateInv E r none := ensures_pure fun _ h => h
  refine ensures_bind (preserves_allocN hh 2) fun b => ?_
  split
  · exact hnone
  refine ensures_bind preserves_get fun s => ?_
  dsimp only
  split
  · exact ensures_bind (actorAlloc_follows fun h => by cases h) fun a => ensures_pure fun _ h => h
  split
  · exact hnone
  refine ensures_bind (preserves_effect hh) fun r => ?_
  split
  · refine ensures_bind (preserves_effect hh) fun r => ?_
    split
    · exact ensures_bind (actorAlloc_follows fun h => by cases h) fun a => ensures_pure fun _ h => h
    · exact hnone
  refine ensures_bind (preserves_sendGetActorModule hh _) fun r => ?_
  split
  · exact ensures_bind (actorAlloc_follows fun _ => rfl) fun a => ensures_pure fun _ h => h
  · exact hnone

/-- The port that is in no list yet is freed. -/
theorem freePort_follows (a p : Ref) :
    Ensures (StateInv E (some a) (some p)) (portFree p false) fun _ => StateInv E (some a) none := by
  intro s u t h hs
  have hmid : StateInv (fun b => E b ∨ b=a) (some a) (some p) s := hs.mono fun _ => .inl
  have hfree := portRelease_follows p s u t h
    ⟨hmid,fun x hx => .inr (Option.some.inj ((hs.unlinked p rfl).2.2 x hx)).symm⟩
  have hout : StateInv E (some a) (some p) t :=
    StateInv.of_not_listed (hfree.building a rfl).2.1 hfree
  exact {hout with unlinked := fun _ h => (by cases h)}

theorem createPort_follows (mp : Msgpuck) (a : Ref) (direction : PortDirection)
    (d : PortDescription) :
    Ensures (StateInv E (some a) none) (portNew mp a direction d) fun r =>
      StateInv E (some a) r := by
  refine ensures_bind (preserves_alloc (view_host quiet)) fun b => ?_
  split
  · exact ensures_pure fun _ h => h
  refine ensures_bind (Q := fun p => StateInv E (some a) (some p)) ?_ fun p => ?_
  · refine ensures_bind (preserves_ofOption _) fun id => ensures_bind (preserves_ofOption _)
      fun name => ensures_bind (preserves_ofOption _) fun peerPortId =>
        ensures_bind (preserves_textCopy _) fun peerId => ?_
    intro s p t h hs
    cases h
    exact hs.allocPort rfl
  · refine ensures_bind (preserves_fifoInit (view_host quiet) mp _ _ _) fun f => ?_
    split
    · exact ensures_bind (freePort_follows a p) fun _ => ensures_pure fun _ h => h
    · exact ensures_bind (preserves_updatePort quiet p fun _ => rfl) fun _ => ensures_pure fun _ h => h

theorem takeState_follows (a p : Ref) (value : UInt32) (peerIdLen : Nat) :
    Preserves (StateInv E (some a) (some p)) (portTakeState p value peerIdLen) := by
  refine preserves_bind ?_ fun _ => preserves_bind (preserves_port p) fun x => ?_
  · intro s u t h hs
    obtain ⟨x,s',hread,h₁⟩ := bind_eq_some.mp h
    obtain ⟨hx,hs'⟩ := port_eq_some hread
    subst s'
    cases h₁
    have ha : a=x.actor := Option.some.inj ((hs.unlinked p rfl).2.2 x hx)
    have hset := hs.setPort (y := {x with state := .ofUInt32 value}) hx rfl
    exact StateInv.of_not_listed (ha ▸ (hs.building a rfl).2.1) hset
  · split
    · exact stateInv_rules.restore peerIdLen trivial fun _ _ _ _ => trivial
    · exact preserves_pure _

theorem linkPort_follows (a p : Ref) (direction : PortDirection) :
    Ensures (StateInv E (some a) (some p)) (portLink a direction p) fun _ =>
      StateInv E (some a) none := by
  refine ensures_bind (preserves_alloc (view_host quiet)) fun b => ?_
  split
  · exact ensures_pure fun s hs => {hs with unlinked := fun _ h => (by cases h)}
  refine ensures_bind (ensures_actor a) fun x => ensures_bind (Q := fun _ =>
    StateInv E (some a) none) ?_ fun _ => preserves_pure _
  rintro s u t h ⟨hs,hx⟩
  cases h
  exact hs.linkPort hx

theorem load_follows (a : Ref) :
    Ensures (StateInv E none none) (actorLoad a) fun _ =>
      StateInv (fun b => E b ∨ b=a) none none := by
  refine ensures_bind (preserves_effect (view_host quiet)) fun r => ?_
  split
  · refine ensures_bind (ensures_actor a) fun x => ensures_bind (Q := fun _ =>
      StateInv (fun b => E b ∨ b=a) none none) ?_ fun _ => preserves_pure _
    rintro s u t h ⟨hs,hx⟩
    cases h
    exact hs.load hx
  · exact ensures_pure fun s hs => hs.mono fun _ => .inl

end StateInv

end Atom

end CalvinConstrained
