import Mathlib

namespace CalvinConstrained

/-- Runs of a partial step function. A step without a successor is undefined
behaviour, so no run passes through it; every step taken meets `ok`. -/
inductive Runs {ι σ : Type*} (step : ι → σ → Option σ) (ok : ι → σ → Prop) :
    σ → List ι → σ → Prop
  | nil (s : σ) : Runs step ok s [] s
  | cons {s t u : σ} {i : ι} {is : List ι} (hok : ok i s) (hs : step i s=some t)
      (hr : Runs step ok t is u) : Runs step ok s (i::is) u

namespace Runs

variable {ι σ : Type*} {step : ι → σ → Option σ} {ok : ι → σ → Prop}

/-- What every admissible step preserves holds at the end of every admissible run. -/
theorem invariant (P : σ → Prop)
    (hstep : ∀ i s t, ok i s → step i s=some t → P s → P t)
    {s t : σ} {is : List ι} (hr : Runs step ok s is t) (hs : P s) : P t := by
  induction hr with
  | nil => exact hs
  | cons hok he _ ih => exact ih (hstep _ _ _ hok he hs)

theorem mono {ok' : ι → σ → Prop} (h : ∀ i s, ok i s → ok' i s) {s t : σ} {is : List ι}
    (hr : Runs step ok s is t) : Runs step ok' s is t := by
  induction hr with
  | nil => exact .nil _
  | cons hok he _ ih => exact .cons (h _ _ hok) he ih

theorem and_mem {P : ι → Prop} {s t : σ} {is : List ι} (hr : Runs step ok s is t)
    (h : ∀ i ∈ is, P i) : Runs step (fun i s => P i ∧ ok i s) s is t := by
  induction hr with
  | nil => exact .nil _
  | cons hok he _ ih =>
    exact .cons ⟨h _ List.mem_cons_self,hok⟩ he (ih fun i hi => h i (List.mem_cons_of_mem _ hi))

/-- When `ok` is exactly what a step needs to keep `J` and to meet `K`, a run stays inside `J`
with all its steps meeting `K` exactly when all its steps meet `ok`. -/
theorem conforms_iff (J : σ → Prop) (K : ι → σ → Prop)
    (hstep : ∀ i s t, step i s=some t → J s → (J t ∧ K i s ↔ ok i s))
    {s t : σ} {is : List ι} (_hr : Runs step (fun _ _ => True) s is t) (hs : J s) :
    (Runs step (fun i u => J u ∧ K i u) s is t ∧ J t) ↔ Runs step ok s is t := by
  constructor
  · rintro ⟨h,ht⟩
    clear _hr
    induction h with
    | nil => exact .nil _
    | @cons _ next _ _ _ hj he hrest ih =>
      have hnext : J next := by
        cases hrest with
        | nil => exact ht
        | cons hu _ _ => exact hu.1
      exact .cons ((hstep _ _ _ he hj.1).mp ⟨hnext,hj.2⟩) he (ih hnext ht)
  · intro h
    clear _hr
    induction h with
    | nil => exact ⟨.nil _,hs⟩
    | cons hok he _ ih =>
      obtain ⟨hnext,hk⟩ := (hstep _ _ _ he hs).mpr hok
      obtain ⟨hrest,ht⟩ := ih hnext
      exact ⟨.cons ⟨hs,hk⟩ he hrest,ht⟩

/-- When `ok` is exactly what a step needs to keep `J`, a run stays inside `J` exactly when
all its steps meet `ok`. -/
theorem inside_iff (J : σ → Prop) (hstep : ∀ i s t, step i s=some t → J s → (J t ↔ ok i s))
    {s t : σ} {is : List ι} (hr : Runs step (fun _ _ => True) s is t) (hs : J s) :
    (Runs step (fun _ u => J u) s is t ∧ J t) ↔ Runs step ok s is t := by
  have hkeep : ∀ i s t, step i s=some t → J s → (J t ∧ True ↔ ok i s) :=
    fun i s t he hj => (and_iff_left trivial).trans (hstep i s t he hj)
  have h := conforms_iff J (fun _ _ => True) hkeep hr hs
  simpa only [and_true] using h

end Runs

/-- Executable form of `Runs` for a decidable condition. -/
def runChecked {ι σ : Type*} (step : ι → σ → Option σ) (ok : ι → σ → Prop)
    [∀ i s, Decidable (ok i s)] : List ι → σ → Option σ
  | [],s => some s
  | i::is,s => if ok i s then (step i s).bind (runChecked step ok is) else none

theorem Runs.of_runChecked {ι σ : Type*} {step : ι → σ → Option σ} {ok : ι → σ → Prop}
    [∀ i s, Decidable (ok i s)] {is : List ι} {s t : σ}
    (h : runChecked step ok is s=some t) : Runs step ok s is t := by
  induction is generalizing s with
  | nil =>
    cases h
    exact .nil _
  | cons i is ih =>
    simp only [runChecked] at h
    split at h
    · next hok =>
      obtain ⟨u,hu,ht⟩ := Option.bind_eq_some_iff.mp h
      exact .cons hok hu (ih ht)
    · cases h

/-- `P` holds at every step of a run of a total step function. -/
def Always {ι σ : Type*} (step : ι → σ → σ) (P : ι → σ → Prop) : List ι → σ → Prop
  | [],_ => True
  | i::is,s => P i s ∧ Always step P is (step i s)

instance Always.decidable {ι σ : Type*} {step : ι → σ → σ} {P : ι → σ → Prop}
    [∀ i s, Decidable (P i s)] : (is : List ι) → (s : σ) → Decidable (Always step P is s)
  | [],_ => isTrue trivial
  | i::is,s => @instDecidableAnd _ _ _ (Always.decidable is (step i s))

/-- Two conditions that agree as long as an invariant holds agree on whole runs. -/
theorem always_congr {ι σ : Type*} {step : ι → σ → σ} {P Q : ι → σ → Prop} (J : σ → Prop)
    (hiff : ∀ i s, J s → (P i s ↔ Q i s)) (hkeep : ∀ i s, J s → Q i s → J (step i s))
    (is : List ι) (s : σ) (hs : J s) : Always step P is s ↔ Always step Q is s := by
  induction is generalizing s with
  | nil => exact Iff.rfl
  | cons i is ih =>
    constructor
    · intro h
      have hq : Q i s := (hiff i s hs).mp h.1
      exact ⟨hq,(ih _ (hkeep i s hs hq)).mp h.2⟩
    · intro h
      exact ⟨(hiff i s hs).mpr h.1,(ih _ (hkeep i s hs h.1)).mpr h.2⟩

/-- A computation that ends, with what holds of its result. -/
theorem exists_of_any {α : Type*} {o : Option α} {p : α → Bool} (h : o.any p=true) :
    ∃ a, o=some a ∧ p a=true := by
  cases o with
  | none => cases h
  | some a => exact ⟨a,rfl,h⟩

/-- All outputs of a machine, oldest first, with the final state. -/
def outputs {ι σ ω : Type*} (exec : ι → σ → ω × σ) : List ι → σ → List ω × σ
  | [],s => ([],s)
  | i::is,s =>
      let r := exec i s
      let rest := outputs exec is r.2
      (r.1::rest.1,rest.2)

/-- Lockstep simulation: related machines emit the same outputs as long as the
abstract run stays inside the domain `dom`, which shrinks along the run. -/
theorem outputs_simulate {ι σ τ ω : Type*} (f : ι → σ → ω × σ) (g : ι → τ → ω × τ)
    (R : σ → τ → Prop) (dom : τ → Prop)
    (hdom : ∀ i t, dom (g i t).2 → dom t)
    (hsim : ∀ i s t, R s t → dom (g i t).2 → (f i s).1=(g i t).1 ∧ R (f i s).2 (g i t).2)
    (is : List ι) (s : σ) (t : τ) (hR : R s t) (hd : dom (outputs g is t).2) :
    (outputs f is s).1=(outputs g is t).1 ∧ R (outputs f is s).2 (outputs g is t).2 := by
  have hback : ∀ (is : List ι) (t : τ), dom (outputs g is t).2 → dom t := by
    intro is
    induction is with
    | nil => exact fun t h => h
    | cons i is ih => exact fun t h => hdom i t (ih _ h)
  induction is generalizing s t with
  | nil => exact ⟨rfl,hR⟩
  | cons i is ih =>
    have hd' : dom (g i t).2 := hback is _ hd
    obtain ⟨ho,hR'⟩ := hsim i s t hR hd'
    obtain ⟨hos,hRs⟩ := ih _ _ hR' hd
    exact ⟨by simp only [outputs,ho,hos],hRs⟩

/-- Two runs of one machine, the second with the inputs that `fi` gives. When `P` is exactly what a
step needs to keep them related and to emit the outputs that `fo` gives, all their prefixes are so
exactly when all steps of the first meet `P`. -/
theorem outputs_related_iff {ι σ ω : Type*} (exec : ι → σ → ω × σ) (fi : ι → ι) (fo : ω → ω)
    (R : σ → σ → Prop) (P : ι → σ → Prop)
    (hstep : ∀ i s t, R s t →
      ((exec (fi i) t).1=fo (exec i s).1 ∧ R (exec i s).2 (exec (fi i) t).2 ↔ P i s))
    (is : List ι) (s t : σ) (hR : R s t) :
    (∀ js, js <+: is → (outputs exec (js.map fi) t).1=(outputs exec js s).1.map fo ∧
      R (outputs exec js s).2 (outputs exec (js.map fi) t).2) ↔
    Always (fun i s => (exec i s).2) P is s := by
  induction is generalizing s t with
  | nil =>
    refine iff_of_true (fun js hjs => ?_) trivial
    obtain rfl := List.prefix_nil.mp hjs
    exact ⟨rfl,hR⟩
  | cons i is ih =>
    constructor
    · intro h
      obtain ⟨ho,hR'⟩ := h [i] (List.prefix_append [i] is)
      refine ⟨(hstep i s t hR).mp ⟨(List.cons.inj ho).1,hR'⟩,(ih _ _ hR').mp fun js hjs => ?_⟩
      obtain ⟨hos,hRs⟩ := h (i::js) ((List.prefix_cons_inj i).mpr hjs)
      exact ⟨(List.cons.inj hos).2,hRs⟩
    · rintro ⟨hP,hrest⟩ js hjs
      obtain ⟨ho,hR'⟩ := (hstep i s t hR).mpr hP
      cases js with
      | nil => exact ⟨rfl,hR⟩
      | cons j js =>
        obtain ⟨rfl,hrestjs⟩ := List.cons_prefix_cons.mp hjs
        obtain ⟨hos,hRs⟩ := (ih _ _ hR').mpr hrest js hrestjs
        exact ⟨by simp only [outputs,List.map_cons,ho,hos],hRs⟩

end CalvinConstrained
