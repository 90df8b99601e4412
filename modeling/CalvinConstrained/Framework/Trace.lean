import CalvinConstrained.Framework.Program

namespace CalvinConstrained

/-- What may be said of where a run starts, what it performs and where it ends. -/
abbrev Trace (σ ω : Type) := σ → List ω → σ → Prop

namespace Prog

variable {σ ω α β : Type} {apply : ω → σ → Option σ}

/-- Every run of the program is as `L` says. -/
def Traces (L : Trace σ ω) (m : Prog apply α) : Prop :=
  ∀ s a t ops, m.run s=some (a,t,ops) → L s ops t

/-- The parts of a run of two programs one after the other. -/
theorem run_bind_eq_some {m : Prog apply α} {f : α → Prog apply β} {s u : σ} {b : β} {ops : List ω}
    (h : (m >>= f).run s=some (b,u,ops)) :
    ∃ a t ops₁ ops₂, m.run s=some (a,t,ops₁) ∧ (f a).run t=some (b,u,ops₂) ∧ ops=ops₁++ops₂ := by
  change (Prog.bind m f).run s=some (b,u,ops) at h
  simp only [Prog.bind] at h
  split at h
  · cases h
  · next a t ops₁ hm =>
    split at h
    · cases h
    · next b' u' ops₂ hf =>
      cases h
      exact ⟨a,t,ops₁,ops₂,hm,hf,rfl⟩

/-- Two programs one after the other run when the second runs from where the first ends. -/
theorem run_bind_iff {m : Prog apply α} {f : α → Prog apply β} {s u : σ} {b : β} {ops : List ω} :
    (m >>= f).run s=some (b,u,ops) ↔
      ∃ a t ops₁ ops₂, m.run s=some (a,t,ops₁) ∧ (f a).run t=some (b,u,ops₂) ∧ ops=ops₁++ops₂ := by
  constructor
  · exact run_bind_eq_some
  · rintro ⟨a,t,ops₁,ops₂,hm,hf,rfl⟩
    change (Prog.bind m f).run s=_
    simp only [Prog.bind,hm,hf]

theorem each_append (f : β → Prog apply Unit) (bs cs : List β) :
    each f (bs++cs)=(do
      each f bs
      each f cs) := by
  induction bs with
  | nil => exact (pure_bind () fun _ => each f cs).symm
  | cons b bs ih =>
    rw [List.cons_append,each,each,ih,bind_assoc]

theorem run_act {o : ω} {s t : σ} {u : Unit} {ops : List ω}
    (h : (act o : Prog apply Unit).run s=some (u,t,ops)) : apply o s=some t ∧ ops=[o] := by
  obtain ⟨r,hr,he⟩ := Option.map_eq_some_iff.mp h
  obtain ⟨v,hv,hr⟩ := Option.map_eq_some_iff.mp hr
  subst hr
  cases he
  exact ⟨hv,rfl⟩

theorem run_perform {o : ω} {f : σ → Option (α × σ)} {hf : ∀ s, (f s).map Prod.snd=apply o s}
    {s t : σ} {a : α} {ops : List ω} (h : (perform o f hf).run s=some (a,t,ops)) :
    f s=some (a,t) ∧ ops=[o] := by
  obtain ⟨⟨b,v⟩,hr,he⟩ := Option.map_eq_some_iff.mp h
  cases he
  exact ⟨hr,rfl⟩

end Prog

/-- Statements about runs that hold of a run when they hold of its parts. -/
structure Trace.Closed {σ ω : Type} (apply : ω → σ → Option σ) (L : Trace σ ω) : Prop where
  nil : ∀ s, L s [] s
  append : ∀ {s t u ops ops'}, Runs apply (fun _ _ => True) s ops t → L s ops t → L t ops' u →
    L s (ops++ops') u

namespace Trace.Closed

open Prog

variable {σ ω α β : Type} {apply : ω → σ → Option σ} {L : Trace σ ω} (k : Closed apply L)

include k

theorem pure (a : α) : Traces L (Pure.pure a : Prog apply α) := by
  intro s b t ops hr
  cases hr
  exact k.nil s

theorem read : Traces L (Prog.read : Prog apply σ) := by
  intro s b t ops hr
  cases hr
  exact k.nil s

omit k in
theorem undefined : Traces L (Prog.undefined : Prog apply α) := by
  intro s a t ops hr
  cases hr

theorem ofOption (x : Option α) : Traces L (Prog.ofOption x : Prog apply α) := by
  cases x with
  | none => exact undefined
  | some a => exact k.pure a

theorem bind {m : Prog apply α} {f : α → Prog apply β} (hm : Traces L m)
    (hf : ∀ a, Traces L (f a)) : Traces L (m >>= f) := by
  intro s b u ops hr
  obtain ⟨a,t,ops₁,ops₂,hm',hf',rfl⟩ := run_bind_eq_some hr
  exact k.append (m.runs hm') (hm s a t ops₁ hm') (hf a t b u ops₂ hf')

/-- A result that may be missing. -/
theorem option {m : Prog apply (Option α)} {f : Option α → Prog apply β} (hm : Traces L m)
    (hnone : Traces L (f none)) (hsome : ∀ a, Traces L (f (some a))) : Traces L (m >>= f) := by
  refine k.bind hm fun a => ?_
  cases a with
  | none => exact hnone
  | some a => exact hsome a

omit k in
theorem ite {c : Prop} [Decidable c] {m m' : Prog apply α} (hm : Traces L m) (hm' : Traces L m') :
    Traces L (if c then m else m') := by
  split
  · exact hm
  · exact hm'

/-- What holds of every operation of a program holds of its runs. -/
theorem of_meets {ok : ω → σ → Prop} {m : Prog apply α}
    (h : ∀ {o s t}, ok o s → apply o s=some t → L s [o] t) (hm : Meets ok m) : Traces L m := by
  intro s a t ops hr
  have hruns := hm s a t ops hr
  clear hr
  induction hruns with
  | nil s => exact k.nil s
  | cons ho hs _ ih => exact k.append (.cons trivial hs (.nil _)) (h ho hs) ih

omit k in
theorem act {o : ω} (h : ∀ s t, apply o s=some t → L s [o] t) :
    Traces L (Prog.act o : Prog apply Unit) := by
  intro s a t ops hr
  obtain ⟨hs,rfl⟩ := run_act hr
  exact h s t hs

omit k in
theorem perform {o : ω} {f : σ → Option (α × σ)} (hf : ∀ s, (f s).map Prod.snd=apply o s)
    (h : ∀ s t, apply o s=some t → L s [o] t) : Traces L (Prog.perform o f hf) := by
  intro s a t ops hr
  obtain ⟨hs,rfl⟩ := run_perform hr
  refine h s t ?_
  rw [← hf s,hs]
  rfl

theorem each {f : β → Prog apply Unit} {bs : List β} (h : ∀ b, Traces L (f b)) :
    Traces L (Prog.each f bs) := by
  induction bs with
  | nil => exact k.pure ()
  | cons b bs ih => exact k.bind (h b) fun _ => ih

omit k in
/-- A program over fewer operations. -/
theorem lift {ω' : Type} {apply' : ω' → σ → Option σ} {f : ω' → ω}
    (h : ∀ o s, apply (f o) s=apply' o s) {m : Prog apply' α}
    (hm : Traces (fun s ops t => L s (ops.map f) t) m) : Traces L (m.lift f h) := by
  intro s a t ops hr
  obtain ⟨⟨b,u,os⟩,hrun,he⟩ := Option.map_eq_some_iff.mp hr
  cases he
  exact hm s b u os hrun

theorem comap {ω' : Type} {apply' : ω' → σ → Option σ} {f : ω' → ω}
    (h : ∀ o s, apply (f o) s=apply' o s) :
    Closed apply' fun s ops t => L s (ops.map f) t where
  nil := k.nil
  append := by
    intro s t u ops ops' hr hl hl'
    rw [List.map_append]
    refine k.append ?_ hl hl'
    clear hl hl'
    induction hr with
    | nil => exact .nil _
    | cons _ hs _ ih => exact .cons trivial ((h _ _).trans hs) ih

end Trace.Closed

end CalvinConstrained
