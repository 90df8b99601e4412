import CalvinConstrained.Runtime.Answer
import CalvinConstrained.Runtime.NameLookup
import CalvinConstrained.Runtime.Traced

namespace CalvinConstrained

open Prog

namespace Flow

variable (mp : Msgpuck)

theorem fire_apply (a : Ref) (s : Node) :
    (Atom.callback a s).map Prod.snd=Op.apply mp (.fire a) s := rfl

/-- `actor->fire` with what it returns. -/
def fire (a : Ref) : Flow mp Bool := Prog.perform (.fire a) (Atom.callback a) (fire_apply mp a)

/-- The iteration of `fire_actors` for an actor that is not deleted. The port lists are read when
their loops begin. -/
def fireTurn (a : Ref) : Flow mp Bool := do
  let x ← look (Atom.actor a)
  let fired ← if x.state=.enabled then fire mp a else pure false
  Prog.each (portTransmit mp) (← look (Atom.actor a)).inPorts
  Prog.each (portTransmit mp) (← look (Atom.actor a)).outPorts
  return fired

/-- The loop of `fire_actors` with its `fired`. The next item is read before an actor is freed, and
for another actor at the end of its iteration. -/
def fireRound : Nat → Bool → Option Ref → Flow mp Bool
  | _,fired,none => pure fired
  | 0,fired,some _ => pure fired
  | n+1,fired,some a => do
      let s ← Prog.read
      if a ∉ s.actors then Prog.undefined
      if (← look (Atom.actor a)).state=.doDelete then
        Prog.act (.freeActor a true)
        fireRound n fired (nextAfter a s.actors)
      else
        let f ← fireTurn mp a
        fireRound n (fired || f) (nextAfter a (← Prog.read).actors)

/-- `fire_actors` with its result. -/
def fireActorsResult : Flow mp Bool := do
  let s ← Prog.read
  fireRound mp s.actors.length false s.actors.head?

end Flow

/-- What a pass did: the actors that were fired, with the results, and those that were freed or
stayed, all in the order of the pass. -/
structure PassResult where
  fires : List (Ref × Bool)
  freed : List Ref
  kept : List Ref

/-- A pass over the given actors: each has one turn, in the order of the list, and is looked at when
its turn comes. The operations are those of the turns. -/
inductive SchedulerPass (mp : Msgpuck) : List Ref → Node → List Op → PassResult → Node → Prop
  | done (s : Node) : SchedulerPass mp [] s [] ⟨[],[],[]⟩ s
  | freed {a as s t u ops r x} (hx : s.actorMem.get a=some x) (hstate : x.state=.doDelete)
      (hfree : Op.apply mp (.freeActor a true) s=some t) (hrest : SchedulerPass mp as t ops r u) :
      SchedulerPass mp (a::as) s (.freeActor a true::ops) {r with freed := a::r.freed} u
  | fired {a as s t v u ops ports r x b} (hx : s.actorMem.get a=some x) (hstate : x.state=.enabled)
      (hfire : Atom.callback a s=some (b,t))
      (hports : (Prog.each (Flow.portTransmit mp) x.ports).run t=some ((),v,ports))
      (hrest : SchedulerPass mp as v ops r u) :
      SchedulerPass mp (a::as) s (.fire a::ports++ops) ⟨(a,b)::r.fires,r.freed,a::r.kept⟩ u
  | passed {a as s v u ops ports r x} (hx : s.actorMem.get a=some x) (hdelete : x.state ≠ .doDelete)
      (henabled : x.state ≠ .enabled)
      (hports : (Prog.each (Flow.portTransmit mp) x.ports).run s=some ((),v,ports))
      (hrest : SchedulerPass mp as v ops r u) :
      SchedulerPass mp (a::as) s (ports++ops) {r with kept := a::r.kept} u

/-- The actors have ids, which are distinct and equally long. -/
structure Node.IdsApart (s : Node) : Prop where
  known : ∀ a ∈ s.actors, ∃ id, s.actorIdOf a=some (some id)
  apart : s.actors.Pairwise fun a b => ∀ i j, s.actorIdOf a=some (some i) →
    s.actorIdOf b=some (some j) → cstr i ≠ cstr j ∧ (cstr i).length=(cstr j).length

/-- The actors are the same, with their ids and ports. -/
abbrev Node.SameActors (s t : Node) : Prop :=
  SameView (fun _ : Port => ()) (fun x : Actor => (x.id,x.inPorts,x.outPorts)) s t

/-- The operations of `cc_port_transmit`. -/
def Op.transmits : Op → Bool
  | .host _ => true
  | .setState _ _ => true
  | .setFifo _ _ => true
  | .dropTunnel _ => true
  | _ => false

def Op.fires : Op → Option Ref
  | .fire a => some a
  | _ => none

def Op.frees : Op → Option Ref
  | .freeActor a _ => some a
  | _ => none

section Transmit

variable {mp : Msgpuck} {s t : Node}

theorem transmits_host {α : Type} (x : Atom α) :
    Meets (fun o _ => o.transmits=true) (Flow.host x : Flow mp α) := by
  refine meets_bind meets_read fun s => ?_
  split
  · exact meets_bind (meets_act fun _ => rfl) fun _ => meets_pure _
  · exact meets_undefined

theorem transmits_act {o : Op} (h : o.transmits=true) :
    Meets (fun o _ => o.transmits=true) (act o : Flow mp Unit) := meets_act fun _ => h

theorem portConnectWithPendingTunnel_transmits (p : Ref) :
    Meets (fun o _ => o.transmits=true) (Flow.portConnectWithPendingTunnel mp p) := by
  have hdrop : Meets (fun o _ => o.transmits=true) (do
      act (.dropTunnel p)
      pure Result.fail : Flow mp Result) :=
    meets_bind (transmits_act rfl) fun _ => meets_pure _
  refine meets_bind (meets_look _) fun x => ?_
  split
  · exact meets_pure _
  dsimp only
  split
  · refine meets_bind (transmits_host _) fun r => ?_
    split
    · exact meets_bind (transmits_act rfl) fun _ => meets_pure _
    · exact hdrop
  · exact hdrop

theorem portTransmitToken_transmits (p : Ref) (x : Port) :
    Meets (fun o _ => o.transmits=true) (Flow.portTransmitToken mp p x) := by
  refine meets_bind (meets_look _) fun f => ?_
  split
  swap
  · exact meets_pure _
  refine meets_bind (transmits_act rfl) fun _ => ?_
  split
  · refine meets_bind (transmits_host _) fun r => ?_
    split
    · exact transmits_act rfl
    · exact meets_pure _
  · refine meets_bind (meets_look _) fun g => ?_
    refine meets_bind (transmits_act rfl) fun _ => meets_bind (meets_look _) fun f' => ?_
    split <;> exact transmits_act rfl
  · exact transmits_act rfl

/-- What the transmission on a port may do to the node. -/
theorem portTransmit_transmits (p : Ref) :
    Meets (fun o _ => o.transmits=true) (Flow.portTransmit mp p) := by
  refine meets_bind (meets_look _) fun x => ?_
  split
  · refine meets_bind (meets_look _) fun y => ?_
    split
    · split
      · exact portTransmitToken_transmits p x
      · exact meets_pure _
    · exact meets_pure _
  · split
    · split
      · exact meets_pure _
      · refine meets_bind (meets_look _) fun y => ?_
        split
        · exact meets_bind (portConnectWithPendingTunnel_transmits p) fun _ => meets_pure _
        · exact meets_pure _
    · exact meets_pure _

theorem sameActors_step (s v w : Node) (h : v.SameActors w) (_ : SameTunnels v w)
    (hs : s.SameActors v) : s.SameActors w := SameView.trans hs h

theorem Op.transmits_same {o : Op} (ho : o.transmits=true) (h : o.apply mp s=some t) :
    s.SameActors t := by
  have hrefl : s.SameActors s := .refl _ _ s
  have hrules : ∀ p, Atom.PortRules s.SameActors p := fun p => {
    graph := fun v w hvw hv => hv.trans (hvw.sameView _ _)
    setState := Atom.preserves_portSetState_view (sameActors_step s) (fun _ _ _ => rfl)
      (fun _ _ => rfl) p
    tunnel := fun _ => Atom.preserves_updatePort (sameActors_step s) p fun _ => rfl
    peerId := fun _ => Atom.preserves_updatePort (sameActors_step s) p fun _ => rfl
    fifo := Atom.preserves_portFifoCancel (sameActors_step s) (fun _ _ => rfl) p}
  cases o with
  | host h' =>
    cases h
    exact ⟨rfl,fun _ => rfl,fun _ => rfl,rfl,rfl,trivial⟩
  | setState p state => exact preserves_state h ((hrules p).setState state) hrefl
  | setFifo p f =>
    exact preserves_state h (Atom.preserves_updatePort (sameActors_step s) p fun _ => rfl) hrefl
  | dropTunnel p => exact preserves_state h (hrules p).dropTunnel hrefl
  | _ => cases ho

theorem runs_same {ops : List Op} (h : Runs (Op.apply mp) (fun o _ => o.transmits=true) s ops t) :
    s.SameActors t :=
  h.invariant s.SameActors (fun _ _ _ ho hv hs => hs.trans (Op.transmits_same ho hv)) (.refl _ _ s)

theorem each_transmits (ps : List Ref) :
    Meets (fun o _ => o.transmits=true) (Prog.each (Flow.portTransmit mp) ps) :=
  meets_each portTransmit_transmits

theorem fire_same {a : Ref} {b : Bool} (h : Atom.callback a s=some (b,t)) : s.SameActors t := by
  have hcore : ∀ x y : Actor, x.core=y.core →
      (x.id,x.inPorts,x.outPorts)=(y.id,y.inPorts,y.outPorts) := by
    intro x y hxy
    have hid := congrArg Actor.id hxy
    have hin := congrArg Actor.inPorts hxy
    have hout := congrArg Actor.outPorts hxy
    simp only [Actor.core] at hid hin hout
    rw [hid,hin,hout]
  exact Atom.preserves_callback (sameActors_step s) hcore (fun _ _ => rfl) a s b t h (.refl _ _ s)

end Transmit

section Turns

variable {mp : Msgpuck} {s t u v : Node} {a : Ref} {x : Actor} {b : Bool} {ops : List Op}

theorem Node.SameActors.live (h : s.SameActors t) (hx : s.actorMem.get a=some x) :
    ∃ y, t.actorMem.get a=some y ∧ y.id=x.id ∧ y.inPorts=x.inPorts ∧ y.outPorts=x.outPorts := by
  have ha := h.actor a
  rw [hx,Option.map_some] at ha
  obtain ⟨y,hy,he⟩ := Option.map_eq_some_iff.mp ha
  obtain ⟨hid,hports⟩ := Prod.mk.inj he
  obtain ⟨hin,hout⟩ := Prod.mk.inj hports
  exact ⟨y,hy,hid,hin,hout⟩

theorem run_lookActor {α : Type} {k : Actor → Flow mp α} (hx : s.actorMem.get a=some x) :
    (look (Atom.actor a) >>= k).run s=(k x).run s :=
  run_bind_of_quiet (run_look (by rw [Atom.actor,hx]; rfl))

/-- The two loops over the ports are one over all ports: neither changes the lists. -/
theorem run_portLoops (h : s.SameActors t) (hx : s.actorMem.get a=some x) {b' : Bool} :
    (do
      Prog.each (Flow.portTransmit mp) (← look (Atom.actor a)).inPorts
      Prog.each (Flow.portTransmit mp) (← look (Atom.actor a)).outPorts
      return b : Flow mp Bool).run t=some (b',v,ops) ↔
    b'=b ∧ (Prog.each (Flow.portTransmit mp) x.ports).run t=some ((),v,ops) := by
  obtain ⟨y,hy,-,hin,-⟩ := h.live hx
  have hsecond : ∀ w ops₁, (Prog.each (Flow.portTransmit mp) x.inPorts).run t=some ((),w,ops₁) →
      (do
        Prog.each (Flow.portTransmit mp) (← look (Atom.actor a)).outPorts
        return b : Flow mp Bool).run w=
      (do
        Prog.each (Flow.portTransmit mp) x.outPorts
        return b : Flow mp Bool).run w := by
    intro w ops₁ hrun
    have hsame : s.SameActors w :=
      h.trans (runs_same (each_transmits x.inPorts t () w ops₁ hrun))
    obtain ⟨z,hz,-,-,hout⟩ := hsame.live hx
    rw [run_lookActor hz,hout]
  rw [run_lookActor hy,hin,Actor.ports,each_append,run_bind_iff,run_bind_iff]
  constructor
  · rintro ⟨⟨⟩,w,ops₁,ops₂,hfirst,hrest,rfl⟩
    rw [hsecond w ops₁ hfirst,run_bind_iff] at hrest
    obtain ⟨⟨⟩,w',ops₃,ops₄,hlast,hpure,rfl⟩ := hrest
    cases hpure
    exact ⟨rfl,(),w,ops₁,ops₃,hfirst,hlast,by rw [List.append_nil]⟩
  · rintro ⟨rfl,⟨⟩,w,ops₁,ops₂,hfirst,hlast,rfl⟩
    refine ⟨(),w,ops₁,ops₂,hfirst,?_,rfl⟩
    rw [hsecond w ops₁ hfirst,run_bind_iff]
    exact ⟨(),v,ops₂,[],hlast,rfl,(List.append_nil _).symm⟩

/-- A turn of an actor that is not deleted. -/
theorem fireTurn_run (hx : s.actorMem.get a=some x) :
    (Flow.fireTurn mp a).run s=some (b,v,ops) ↔
      (x.state=.enabled ∧ ∃ t ports, Atom.callback a s=some (b,t) ∧
        (Prog.each (Flow.portTransmit mp) x.ports).run t=some ((),v,ports) ∧
        ops=.fire a::ports) ∨
      x.state ≠ .enabled ∧ b=false ∧
        (Prog.each (Flow.portTransmit mp) x.ports).run s=some ((),v,ops) := by
  rw [Flow.fireTurn,run_lookActor hx]
  by_cases henabled : x.state=.enabled
  · rw [if_pos henabled,run_bind_iff]
    constructor
    · rintro ⟨b',t,ops₁,ops₂,hfire,hrest,rfl⟩
      obtain ⟨hcall,rfl⟩ := run_perform hfire
      obtain ⟨rfl,hports⟩ := (run_portLoops (fire_same hcall) hx).mp hrest
      exact .inl ⟨henabled,t,ops₂,hcall,hports,rfl⟩
    · rintro (⟨-,t,ports,hcall,hports,rfl⟩ | ⟨hno,-⟩)
      · refine ⟨b,t,[.fire a],ports,?_,(run_portLoops (fire_same hcall) hx).mpr ⟨rfl,hports⟩,rfl⟩
        simp [Flow.fire,perform,hcall]
      · exact absurd henabled hno
  · rw [if_neg henabled,run_bind_of_quiet (a := false) rfl,run_portLoops (.refl _ _ s) hx]
    constructor
    · rintro ⟨rfl,hports⟩
      exact .inr ⟨henabled,rfl,hports⟩
    · rintro (⟨hyes,-⟩ | ⟨-,rfl,hports⟩)
      · exact absurd hyes henabled
      · exact ⟨rfl,hports⟩

end Turns

section Ids

variable {mp : Msgpuck} {s t u : Node} {a b : Ref} {kept as : List Ref}

theorem Node.SameActors.ids (h : s.SameActors t) (a : Ref) : t.actorIdOf a=s.actorIdOf a := by
  have ha := congrArg (Option.map Prod.fst) (h.actor a)
  rw [Option.map_map,Option.map_map] at ha
  exact ha

theorem Node.IdsApart.same (h : s.IdsApart) (k : s.SameActors t) : t.IdsApart where
  known := by
    intro a ha
    rw [k.actors] at ha
    rw [Node.SameActors.ids k]
    exact h.known a ha
  apart := by
    rw [k.actors]
    refine h.apart.imp fun {a b} hab i j hi hj => hab i j ?_ ?_
    · rwa [Node.SameActors.ids k] at hi
    · rwa [Node.SameActors.ids k] at hj

/-- Ids of the same length are only taken for each other when they are the same. -/
theorem listRemoveMatches_apart {i j : Bytes} (hne : cstr i ≠ cstr j)
    (hlen : (cstr i).length=(cstr j).length) : listRemoveMatches i j=false := by
  have hle : (cstr j).length ≤ i.length := by
    rw [← hlen]
    exact (List.takeWhile_sublist _).length_le
  rw [listRemoveMatches,strncmpEq,decide_eq_false_iff_not,cstr_take,cstr_take,
    List.take_of_length_le (hlen.trans_le hle),List.take_of_length_le hle]
  exact hne

theorem Node.IdsApart.nodup (h : s.IdsApart) : s.actors.Nodup := by
  refine List.Pairwise.imp_of_mem (fun {a b} ha _ hab => ?_) h.apart
  rintro rfl
  obtain ⟨id,hid⟩ := h.known a ha
  exact (hab id id hid hid).1 rfl

/-- `cc_list_remove` takes no other actor for `a`. -/
theorem Node.IdsApart.unlinks (h : s.IdsApart) (ha : a ∈ s.actors) (hb : b ∈ s.actors) :
    Atom.unlinks s a b=decide (b=a) := by
  by_cases hab : b=a
  · subst hab
    obtain ⟨id,hid⟩ := h.known b hb
    rw [Atom.unlinks_self hid,decide_eq_true rfl]
  · have : Std.Symm fun a b => ∀ i j, s.actorIdOf a=some (some i) → s.actorIdOf b=some (some j) →
        cstr i ≠ cstr j ∧ (cstr i).length=(cstr j).length :=
      ⟨fun a b hab i j hi hj => ⟨(hab j i hj hi).1.symm,(hab j i hj hi).2.symm⟩⟩
    obtain ⟨i,hi⟩ := h.known a ha
    obtain ⟨j,hj⟩ := h.known b hb
    obtain ⟨hne,hlen⟩ := h.apart.forall hb ha hab j i hj hi
    obtain ⟨x,hx,hxi⟩ := Option.map_eq_some_iff.mp hi
    obtain ⟨y,hy,hyj⟩ := Option.map_eq_some_iff.mp hj
    rw [decide_eq_false hab,Atom.unlinks,hx,Option.bind_some,hxi,Option.any_some,hy,
      Option.bind_some,hyj,Option.any_some,listRemoveMatches_apart hne hlen]

/-- Freeing an actor takes it from the list, and leaves the order and the ids of the others. -/
theorem Node.IdsApart.freed (h : s.IdsApart) (hlist : s.actors=kept++a::as)
    (hfree : Op.apply mp (.freeActor a true) s=some t) :
    t.IdsApart ∧ t.actors=kept++as ∧ t.actorIdOf a=none ∧
      ∀ b, b ≠ a → t.actorIdOf b=s.actorIdOf b := by
  obtain ⟨⟨⟨⟩,t'⟩,hrun,he⟩ := Option.map_eq_some_iff.mp hfree
  cases he
  have ha : a ∈ s.actors := by simp [hlist]
  have hmiss : a ∉ kept := by
    have hnodup := h.nodup
    rw [hlist,List.nodup_append] at hnodup
    exact fun hmem => hnodup.2.2 a hmem a List.mem_cons_self rfl
  obtain ⟨w,u,hget,hrun⟩ := Atom.bind_eq_some.mp hrun
  cases hget
  split at hrun
  · next hno => exact absurd ha hno
  obtain ⟨hactors,hids⟩ := Atom.actorFree_ids hrun
  have herase : s.actors.eraseP (Atom.unlinks s a)=kept++as := by
    have hkept : ∀ b ∈ kept, ¬Atom.unlinks s a b=true := by
      intro b hb
      rw [h.unlinks ha (by simp [hlist,hb]),decide_eq_true_iff]
      exact fun he => hmiss (he ▸ hb)
    have hself : Atom.unlinks s a a=true := by
      rw [h.unlinks ha ha,decide_eq_true rfl]
    rw [hlist,List.eraseP_append_right _ hkept,List.eraseP_cons_of_pos hself]
  have hothers : ∀ b, b ≠ a → t'.actorIdOf b=s.actorIdOf b := fun b hb => by
    rw [hids,if_neg hb]
  have hleft : ∀ b ∈ kept++as, t'.actorIdOf b=s.actorIdOf b := by
    intro b hb
    refine hothers b ?_
    rintro rfl
    have hnodup := h.nodup
    rw [hlist] at hnodup
    exact (List.nodup_middle.mp hnodup).notMem hb
  have hsub : (kept++as).Sublist s.actors := by
    rw [hlist]
    exact (List.Sublist.refl kept).append (List.sublist_cons_self a as)
  refine ⟨⟨fun b hb => ?_,?_⟩,hactors.trans herase,by rw [hids,if_pos rfl],hothers⟩
  · rw [hactors.trans herase] at hb
    rw [hleft b hb]
    exact h.known b (hsub.subset hb)
  · rw [hactors.trans herase]
    refine (h.apart.sublist hsub).imp_of_mem fun {b c} hb hc hbc i j hi hj => ?_
    rw [hleft b hb] at hi
    rw [hleft c hc] at hj
    exact hbc i j hi hj

theorem nextAfter_append (h : a ∉ kept) : nextAfter a (kept++a::as)=as.head? := by
  induction kept with
  | nil => simp [nextAfter]
  | cons b kept ih =>
    rw [List.mem_cons,not_or] at h
    have hrest := ih h.2
    rw [nextAfter] at hrest ⊢
    rw [List.cons_append,List.dropWhile_cons_of_pos (by simpa using Ne.symm h.1)]
    exact hrest

end Ids

section Pass

variable {mp : Msgpuck} {s t u : Node} {a : Ref} {kept as rest : List Ref} {x : Actor} {b : Bool}
  {ops : List Op} {r : PassResult}

/-- An iteration of the loop when the item it is at is in the list. -/
theorem fireRound_succ (n : Nat) (fired : Bool) (ha : a ∈ s.actors) (hx : s.actorMem.get a=some x) :
    (Flow.fireRound mp (n+1) fired (some a)).run s=
      (if x.state=.doDelete then do
        Prog.act (.freeActor a true)
        Flow.fireRound mp n fired (nextAfter a s.actors)
      else do
        let f ← Flow.fireTurn mp a
        Flow.fireRound mp n (fired || f) (nextAfter a (← Prog.read).actors) : Flow mp Bool).run s := by
  rw [Flow.fireRound,run_bind_of_quiet (a := s) rfl]
  dsimp only
  rw [if_neg (not_not.mpr ha),run_lookActor hx]

/-- The loop from the item where the rest of the list begins, with enough fuel for the rest, is a
pass over it. -/
theorem fireRound_pass {n : Nat} (hn : rest.length ≤ n) (h : s.IdsApart)
    (hlist : s.actors=kept++rest) (fired : Bool) :
    (Flow.fireRound mp n fired rest.head?).run s=some (b,t,ops) ↔
      ∃ r, SchedulerPass mp rest s ops r t ∧ b=(fired || r.fires.any Prod.snd) := by
  induction rest generalizing n kept s fired ops with
  | nil =>
    have hrun : (Flow.fireRound mp n fired none).run s=some (fired,s,[]) := by
      cases n <;> rfl
    rw [List.head?_nil,hrun]
    constructor
    · intro he
      cases he
      exact ⟨⟨[],[],[]⟩,.done t,by simp⟩
    · rintro ⟨r,hpass,rfl⟩
      cases hpass
      simp
  | cons a as ih =>
    obtain ⟨m,rfl⟩ : ∃ m, n=m+1 := ⟨n-1,by rw [List.length_cons] at hn; omega⟩
    rw [List.length_cons] at hn
    have ha : a ∈ s.actors := by simp [hlist]
    have hmiss : a ∉ kept := by
      have hnodup := h.nodup
      rw [hlist,List.nodup_append] at hnodup
      exact fun hmem => hnodup.2.2 a hmem a List.mem_cons_self rfl
    obtain ⟨id,hid⟩ := h.known a ha
    obtain ⟨x,hx,-⟩ := Option.map_eq_some_iff.mp hid
    have hnext : ∀ {v : Node}, s.SameActors v → nextAfter a v.actors=as.head? := by
      intro v hv
      rw [hv.actors,hlist,nextAfter_append hmiss]
    rw [List.head?_cons,fireRound_succ m fired ha hx]
    by_cases hdelete : x.state=.doDelete
    · rw [if_pos hdelete,hlist,nextAfter_append hmiss,run_bind_iff]
      constructor
      · rintro ⟨⟨⟩,v,ops₁,ops₂,hact,hrest,rfl⟩
        obtain ⟨hfree,rfl⟩ := run_act hact
        obtain ⟨hapart,hleft,-⟩ := h.freed hlist hfree
        obtain ⟨r,hpass,hb⟩ := (ih (by omega) hapart hleft fired).mp hrest
        exact ⟨_,.freed hx hdelete hfree hpass,hb⟩
      · rintro ⟨r,hpass,hb⟩
        cases hpass with
        | freed hx' hstate hfree hrest =>
          obtain ⟨hapart,hleft,-⟩ := h.freed hlist hfree
          refine ⟨(),_,[.freeActor a true],_,?_,(ih (by omega) hapart hleft fired).mpr ⟨_,hrest,hb⟩,rfl⟩
          simp [act,perform,hfree]
        | fired hx' hstate hfire hports hrest =>
          cases hx.symm.trans hx'
          cases hdelete.symm.trans hstate
        | passed hx' hno henabled hports hrest =>
          cases hx.symm.trans hx'
          exact absurd hdelete hno
    · rw [if_neg hdelete,run_bind_iff]
      have htail : ∀ {v : Node} {f : Bool} {ops : List Op}, s.SameActors v →
          ((do
            let s ← Prog.read
            Flow.fireRound mp m (fired || f) (nextAfter a s.actors) : Flow mp Bool).run v=
              some (b,t,ops) ↔
            ∃ r, SchedulerPass mp as v ops r t ∧ b=(fired || f || r.fires.any Prod.snd)) := by
        intro v f ops hv
        have hlist' : v.actors=(kept++[a])++as := by
          rw [hv.actors,hlist,List.append_assoc,List.singleton_append]
        rw [run_bind_of_quiet (a := v) rfl,hnext hv]
        exact ih (by omega) (h.same hv) hlist' (fired || f)
      constructor
      · rintro ⟨f,v,ops₁,ops₂,hturn,hrest,rfl⟩
        rcases (fireTurn_run hx).mp hturn with ⟨henabled,w,ports,hfire,hports,rfl⟩ |
          ⟨henabled,rfl,hports⟩
        · have hsame : s.SameActors v :=
            (fire_same hfire).trans (runs_same (each_transmits x.ports w () v ports hports))
          obtain ⟨r,hpass,hb⟩ := (htail hsame).mp hrest
          exact ⟨_,.fired hx henabled hfire hports hpass,by rw [hb]; simp [Bool.or_assoc]⟩
        · have hsame : s.SameActors v := runs_same (each_transmits x.ports s () v ops₁ hports)
          obtain ⟨r,hpass,hb⟩ := (htail hsame).mp hrest
          exact ⟨_,.passed hx hdelete henabled hports hpass,by rw [hb]; simp⟩
      · rintro ⟨r,hpass,hb⟩
        cases hpass with
        | freed hx' hstate hfree hrest =>
          cases hx.symm.trans hx'
          exact absurd hstate hdelete
        | @fired _ _ _ w v _ _ ports r _ f hx' henabled hfire hports hrest =>
          cases hx.symm.trans hx'
          have hsame : s.SameActors v :=
            (fire_same hfire).trans (runs_same (each_transmits x.ports w () v ports hports))
          refine ⟨f,v,.fire a::ports,_,(fireTurn_run hx).mpr (.inl ⟨henabled,w,ports,hfire,hports,rfl⟩),
            (htail hsame).mpr ⟨r,hrest,?_⟩,rfl⟩
          rw [hb]
          simp [Bool.or_assoc]
        | @passed _ _ _ v _ _ ports r _ hx' hno henabled hports hrest =>
          cases hx.symm.trans hx'
          have hsame : s.SameActors v := runs_same (each_transmits x.ports s () v ports hports)
          refine ⟨false,v,ports,_,(fireTurn_run hx).mpr (.inr ⟨henabled,rfl,hports⟩),
            (htail hsame).mpr ⟨r,hrest,?_⟩,rfl⟩
          rw [hb]
          simp

/-- A transmission fires and frees nothing. -/
theorem Op.transmits_none {o : Op} (ho : o.transmits=true) : o.fires=none ∧ o.frees=none := by
  cases o with
  | host | setState | setFifo | dropTunnel => exact ⟨rfl,rfl⟩
  | _ => cases ho

theorem runs_transmits (h : Runs (Op.apply mp) (fun o _ => o.transmits=true) s ops t) :
    ops.filterMap Op.fires=[] ∧ ops.filterMap Op.frees=[] := by
  induction h with
  | nil => exact ⟨rfl,rfl⟩
  | cons ho _ _ ih =>
    obtain ⟨hfires,hfrees⟩ := Op.transmits_none ho
    rw [List.filterMap_cons_none hfires,List.filterMap_cons_none hfrees]
    exact ih

/-- What a pass leaves: its operations fire and free what the turns did, and the actors that were not
freed stay in the list in their order. -/
structure PassResult.Describes (r : PassResult) (s : Node) (rest kept : List Ref) (ops : List Op)
    (t : Node) : Prop where
  fires : ops.filterMap Op.fires=r.fires.map Prod.fst
  frees : ops.filterMap Op.frees=r.freed
  actors : t.actors=kept++r.kept
  kept : r.kept=rest.filter fun a => decide (a ∉ r.freed)
  freed : r.freed ⊆ rest
  ids : ∀ a, t.actorIdOf a=if a ∈ r.freed then none else s.actorIdOf a

/-- The turn of an actor that stays in the list. -/
theorem PassResult.Describes.stay {v : Node} (hr : r.Describes v as (kept++[a]) ops t)
    (h : s.IdsApart) (hlist : s.actors=kept++a::as) (hsame : s.SameActors v) :
    t.actors=kept++a::r.kept ∧ a::r.kept=(a::as).filter (fun b => decide (b ∉ r.freed)) ∧
      r.freed ⊆ a::as ∧ ∀ b, t.actorIdOf b=if b ∈ r.freed then none else s.actorIdOf b := by
  have hnodup := h.nodup
  rw [hlist] at hnodup
  have hmiss : a ∉ as := (List.nodup_cons.mp (List.nodup_append.mp hnodup).2.1).1
  have hstay : a ∉ r.freed := fun ha => hmiss (hr.freed ha)
  refine ⟨?_,?_,List.subset_cons_of_subset a hr.freed,fun b => ?_⟩
  · rw [hr.actors,List.append_assoc,List.singleton_append]
  · rw [List.filter_cons_of_pos (by simpa using hstay),hr.kept]
  · rw [hr.ids,Node.SameActors.ids hsame]

theorem SchedulerPass.describes (hpass : SchedulerPass mp rest s ops r t) (h : s.IdsApart)
    (hlist : s.actors=kept++rest) : r.Describes s rest kept ops t := by
  induction hpass generalizing kept with
  | done s => exact ⟨rfl,rfl,hlist,rfl,by simp,by simp⟩
  | @freed a as s v t ops r x hx hstate hfree hrest ih =>
    obtain ⟨hapart,hleft,hgone,hothers⟩ := h.freed hlist hfree
    have hr := ih hapart hleft
    have hnodup := h.nodup
    rw [hlist] at hnodup
    have hmiss : a ∉ as := (List.nodup_cons.mp (List.nodup_append.mp hnodup).2.1).1
    refine ⟨hr.fires,congrArg (List.cons a) hr.frees,hr.actors,?_,?_,fun b => ?_⟩
    · rw [List.filter_cons_of_neg (by simp),hr.kept]
      refine List.filter_congr fun b hb => ?_
      have hne : b ≠ a := fun he => hmiss (he ▸ hb)
      simp [hne]
    · exact List.cons_subset_cons a hr.freed
    · rw [hr.ids]
      by_cases hb : b=a
      · subst hb
        simp [hgone]
      · simp [hb,hothers b hb]
  | @fired a as s w v t ops ports r x b hx hstate hfire hports hrest ih =>
    have hruns := each_transmits x.ports w () v ports hports
    have hsame : s.SameActors v := (fire_same hfire).trans (runs_same hruns)
    have hlist' : v.actors=(kept++[a])++as := by
      rw [hsame.actors,hlist,List.append_assoc,List.singleton_append]
    have hr := ih (h.same hsame) hlist'
    obtain ⟨hactors,hkept,hfreed,hids⟩ := hr.stay h hlist hsame
    obtain ⟨hfires,hfrees⟩ := runs_transmits hruns
    refine ⟨?_,?_,hactors,hkept,hfreed,hids⟩
    · have hrest := congrArg (List.cons a) hr.fires
      simpa [Op.fires,hfires] using hrest
    · rw [List.cons_append,List.filterMap_cons_none rfl,List.filterMap_append,hfrees,hr.frees,
        List.nil_append]
  | @passed a as s v t ops ports r x hx hno henabled hports hrest ih =>
    have hruns := each_transmits x.ports s () v ports hports
    have hsame : s.SameActors v := runs_same hruns
    have hlist' : v.actors=(kept++[a])++as := by
      rw [hsame.actors,hlist,List.append_assoc,List.singleton_append]
    have hr := ih (h.same hsame) hlist'
    obtain ⟨hactors,hkept,hfreed,hids⟩ := hr.stay h hlist hsame
    obtain ⟨hfires,hfrees⟩ := runs_transmits hruns
    refine ⟨?_,?_,hactors,hkept,hfreed,hids⟩
    · rw [List.filterMap_append,hfires,hr.fires,List.nil_append]
    · rw [List.filterMap_append,hfrees,hr.frees,List.nil_append]

end Pass

section Result

variable {mp : Msgpuck} {s t v : Node} {a : Ref} {x : Actor} {ops : List Op}

theorem run_lookActor_none {α : Type} {k : Actor → Flow mp α} (hx : s.actorMem.get a=none) :
    (look (Atom.actor a) >>= k).run s=none := by
  have hlook : (look (Atom.actor a) : Flow mp Actor).run s=none := by
    rw [look,run_bind_of_quiet (a := s) rfl,Atom.actor,hx]
    rfl
  cases hrun : (look (Atom.actor a) >>= k).run s with
  | none => rfl
  | some r =>
    obtain ⟨b,t,ops⟩ := r
    obtain ⟨y,u,ops₁,ops₂,hfirst,-⟩ := run_bind_iff.mp hrun
    cases hlook.symm.trans hfirst

/-- A turn without its result. -/
theorem fireActor_run (hx : s.actorMem.get a=some x) :
    (Flow.fireActor mp a).run s=some ((),v,ops) ↔
      ∃ b, (Flow.fireTurn mp a).run s=some (b,v,ops) := by
  rw [Flow.fireActor,run_lookActor hx]
  simp only [fireTurn_run hx]
  by_cases henabled : x.state=.enabled
  · rw [if_pos henabled,run_bind_iff]
    constructor
    · rintro ⟨⟨⟩,t,ops₁,ops₂,hact,hports,rfl⟩
      obtain ⟨hcall,rfl⟩ := run_act hact
      obtain ⟨⟨b,t'⟩,hcallback,rfl⟩ := Option.map_eq_some_iff.mp hcall
      exact ⟨b,.inl ⟨henabled,t',ops₂,hcallback,hports,rfl⟩⟩
    · rintro ⟨b,⟨-,t,ports,hcall,hports,rfl⟩ | ⟨hno,-⟩⟩
      · refine ⟨(),t,[.fire a],ports,?_,hports,rfl⟩
        have happly : Op.apply mp (.fire a) s=some t := by rw [Op.apply,hcall]; rfl
        simp [act,perform,happly]
      · exact absurd henabled hno
  · rw [if_neg henabled]
    constructor
    · intro hports
      exact ⟨false,.inr ⟨henabled,rfl,hports⟩⟩
    · rintro ⟨b,⟨hyes,-⟩ | ⟨-,-,hports⟩⟩
      · exact absurd hyes henabled
      · exact hports

/-- A turn leaves the list of actors. -/
theorem fireTurn_actors {b : Bool} (hx : s.actorMem.get a=some x)
    (h : (Flow.fireTurn mp a).run s=some (b,v,ops)) : v.actors=s.actors := by
  rcases (fireTurn_run hx).mp h with ⟨-,t,ports,hcall,hports,-⟩ | ⟨-,-,hports⟩
  · exact (runs_same (each_transmits x.ports t () v ports hports)).actors.trans (fire_same hcall).actors
  · exact (runs_same (each_transmits x.ports s () v ops hports)).actors

/-- The loop and the loop with its result make the same runs. -/
theorem fireLoop_run (n : Nat) (fired : Bool) (next : Option Ref) :
    (Flow.fireLoop mp n next).run s=some ((),t,ops) ↔
      ∃ b, (Flow.fireRound mp n fired next).run s=some (b,t,ops) := by
  induction n generalizing s fired next ops with
  | zero =>
    cases next <;> exact ⟨fun h => by cases h; exact ⟨fired,rfl⟩,fun h => by
      obtain ⟨b,hb⟩ := h
      cases hb
      rfl⟩
  | succ n ih =>
    cases next with
    | none =>
      exact ⟨fun h => by cases h; exact ⟨fired,rfl⟩,fun h => by
        obtain ⟨b,hb⟩ := h
        cases hb
        rfl⟩
    | some a =>
      by_cases ha : a ∈ s.actors
      swap
      · rw [Flow.fireLoop,Flow.fireRound,run_bind_of_quiet (a := s) rfl,run_bind_of_quiet (a := s) rfl]
        dsimp only
        rw [if_pos ha,if_pos ha]
        refine iff_of_false (fun h => ?_) fun h => ?_
        · obtain ⟨y,u,ops₁,ops₂,hundef,-⟩ := run_bind_iff.mp h
          cases hundef
        · obtain ⟨b,hb⟩ := h
          obtain ⟨y,u,ops₁,ops₂,hundef,-⟩ := run_bind_iff.mp hb
          cases hundef
      cases hx : s.actorMem.get a with
      | none =>
        rw [Flow.fireLoop,Flow.fireRound,run_bind_of_quiet (a := s) rfl,run_bind_of_quiet (a := s) rfl]
        dsimp only
        rw [if_neg (not_not.mpr ha),if_neg (not_not.mpr ha),run_lookActor_none hx,run_lookActor_none hx]
        simp
      | some x =>
        have hloop : (Flow.fireLoop mp (n+1) (some a)).run s=
            (if x.state=.doDelete then do
              Prog.act (.freeActor a true)
              Flow.fireLoop mp n (nextAfter a s.actors)
            else do
              Flow.fireActor mp a
              Flow.fireLoop mp n (nextAfter a s.actors) : Flow mp Unit).run s := by
          rw [Flow.fireLoop,run_bind_of_quiet (a := s) rfl]
          dsimp only
          rw [if_neg (not_not.mpr ha),run_lookActor hx]
        rw [hloop,fireRound_succ n fired ha hx]
        by_cases hdelete : x.state=.doDelete
        · simp only [if_pos hdelete,run_bind_iff,ih fired]
          constructor
          · rintro ⟨u,v,ops₁,ops₂,hact,⟨b,hrest⟩,he⟩
            exact ⟨b,u,v,ops₁,ops₂,hact,hrest,he⟩
          · rintro ⟨b,u,v,ops₁,ops₂,hact,hrest,he⟩
            exact ⟨u,v,ops₁,ops₂,hact,⟨b,hrest⟩,he⟩
        · rw [if_neg hdelete,if_neg hdelete,run_bind_iff]
          constructor
          · rintro ⟨⟨⟩,v,ops₁,ops₂,hturn,hrest,he⟩
            obtain ⟨f,hturn⟩ := (fireActor_run hx).mp hturn
            obtain ⟨b,hrest⟩ := (ih (fired || f) _).mp hrest
            refine ⟨b,run_bind_iff.mpr ⟨f,v,ops₁,ops₂,hturn,?_,he⟩⟩
            rw [run_bind_of_quiet (a := v) rfl,fireTurn_actors hx hturn]
            exact hrest
          · rintro ⟨b,hb⟩
            obtain ⟨f,v,ops₁,ops₂,hturn,hrest,he⟩ := run_bind_iff.mp hb
            rw [run_bind_of_quiet (a := v) rfl,fireTurn_actors hx hturn] at hrest
            exact ⟨(),v,ops₁,ops₂,(fireActor_run hx).mpr ⟨f,hturn⟩,(ih (fired || f) _).mpr ⟨b,hrest⟩,he⟩

/-- `fire_actors` of the events of a node is the one whose result is looked at. -/
theorem fireActors_run :
    (Flow.fireActors mp).run s=some ((),t,ops) ↔
      ∃ b, (Flow.fireActorsResult mp).run s=some (b,t,ops) := by
  rw [Flow.fireActors,Flow.fireActorsResult,run_bind_of_quiet (a := s) rfl,
    run_bind_of_quiet (a := s) rfl]
  exact fireLoop_run s.actors.length false s.actors.head?

end Result

/-- A scheduler pass over a node with distinct ids of one length. More fuel than one step an actor
changes nothing, the runs are exactly the passes over the list of actors, with whether some fire was
true for their result, and a pass fires, frees and leaves what its turns say. -/
theorem fire_actors_visits_once (mp : Msgpuck) {s : Node} (h : s.IdsApart) :
    (∀ n, s.actors.length ≤ n → (Flow.fireRound mp n false s.actors.head?).run s=
      (Flow.fireActorsResult mp).run s) ∧
    (∀ fired t ops, (Flow.fireActorsResult mp).run s=some (fired,t,ops) ↔
      ∃ r, SchedulerPass mp s.actors s ops r t ∧ fired=r.fires.any Prod.snd) ∧
    ∀ ops r t, SchedulerPass mp s.actors s ops r t →
      ops.filterMap Op.fires=r.fires.map Prod.fst ∧ ops.filterMap Op.frees=r.freed ∧
      t.actors=s.actors.filter (fun a => decide (a ∉ r.freed)) ∧ r.freed ⊆ s.actors ∧
      ∀ a, t.actorIdOf a=if a ∈ r.freed then none else s.actorIdOf a := by
  have hlist : s.actors=[]++s.actors := rfl
  have hround : ∀ n, s.actors.length ≤ n → ∀ b t ops,
      ((Flow.fireRound mp n false s.actors.head?).run s=some (b,t,ops) ↔
        ∃ r, SchedulerPass mp s.actors s ops r t ∧ b=r.fires.any Prod.snd) := by
    intro n hn b t ops
    rw [fireRound_pass hn h hlist false]
    simp only [Bool.false_or]
  have hresult : (Flow.fireActorsResult mp).run s=
      (Flow.fireRound mp s.actors.length false s.actors.head?).run s := run_bind_of_quiet rfl
  refine ⟨fun n hn => ?_,fun fired t ops => ?_,fun ops r t hpass => ?_⟩
  · rw [hresult]
    refine Option.ext fun z => ?_
    exact (hround n hn z.1 z.2.1 z.2.2).trans (hround _ (Nat.le_refl _) z.1 z.2.1 z.2.2).symm
  · rw [hresult]
    exact hround _ (Nat.le_refl _) fired t ops
  · have hr := hpass.describes h hlist
    exact ⟨hr.fires,hr.frees,by rw [hr.actors,hr.kept,List.nil_append],hr.freed,hr.ids⟩

/-- A node with two actors, the first of which is enabled. -/
def twoActors : List (Event × Fate) :=
  joining++[(.actorCreate (Message.actor "t" "ab" [] []),.fresh 10),
    (.actorCreate (Message.actor "t" "cd" [] [⟨"pq",none,"qr",none⟩]),.fresh 11),
    (.actorConnectPorts 0,.fresh 12),(.actorConnectPorts 1,.fresh 13)]

theorem fire_actors_visits_two :
    ∃ s, Runs (Event.step msgpack) (fun _ _ => True) (.init bareHost) twoActors s ∧
      ∃ t ops r, (Flow.fireActorsResult msgpack).run s=some (true,t,ops) ∧
        SchedulerPass msgpack s.actors s ops r t ∧ r.fires.map Prod.fst=[0] ∧ t.actors=[0,1] := by
  have hrun : (Event.runAll (Event.step msgpack) twoActors (.init bareHost)).any (fun s =>
      decide (s.actors=[0,1] ∧ s.actorIdOf 0=some (some (ascii "ab")) ∧
        s.actorIdOf 1=some (some (ascii "cd"))) &&
      ((Flow.fireActorsResult msgpack).run s).any fun r =>
        decide (r.1=true ∧ r.2.2.filterMap Op.fires=[0] ∧ r.2.2.filterMap Op.frees=[]))=true := by
    decide +kernel
  obtain ⟨s,hs,hboth⟩ := exists_of_any hrun
  obtain ⟨hids,hpass⟩ := Bool.and_eq_true_iff.mp hboth
  obtain ⟨hactors,hab,hcd⟩ := of_decide_eq_true hids
  obtain ⟨⟨fired,t,ops⟩,hfire,hend⟩ := exists_of_any hpass
  obtain ⟨hfired,hfires,hfrees⟩ := of_decide_eq_true hend
  have hapart : s.IdsApart := by
    refine ⟨?_,?_⟩
    · rw [hactors]
      intro a ha
      simp only [List.mem_cons,List.not_mem_nil,or_false] at ha
      rcases ha with rfl | rfl
      · exact ⟨_,hab⟩
      · exact ⟨_,hcd⟩
    · rw [hactors,List.pairwise_pair]
      intro i j hi hj
      cases hi.symm.trans hab
      cases hj.symm.trans hcd
      decide
  obtain ⟨-,hruns,hafter⟩ := fire_actors_visits_once msgpack hapart
  obtain ⟨r,hr,-⟩ := (hruns fired t ops).mp hfire
  obtain ⟨hf,hfr,hleft,-⟩ := hafter ops r t hr
  dsimp only at hfired
  subst hfired
  refine ⟨s,Event.runs_of_step msgpack hs,t,ops,r,hfire,hr,hf.symm.trans hfires,?_⟩
  rw [hleft,← hfr,hfrees,hactors]
  rfl

end CalvinConstrained
