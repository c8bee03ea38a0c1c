import Mathlib.Tactic.Common

/-! # Executable Transition Systems

A program that reacts to a sequence of inputs and may stop is a step
function `σ → ι → Except ε σ`. This module collects what is said about
its runs:

* **Runs**: `run`, and `Along C`, every step of a run meets `C`, and
  `Always P`, every state of a run meets `P`.
* **Invariant rules**: what one step preserves, a whole run preserves;
  an error that one step raises exactly when `C` fails is raised by a
  run exactly when some step of it fails `C`.
* **Two runs**: a relation kept by every pair of steps is kept by every
  pair of runs on the same inputs.
* **Rounds**: a step that runs a sequence of handlers, each of which
  falls through to the next or ends the round, with the same rules.
* **Append-only programs**: `Emits m x out`, the program `m` does
  nothing to its store but add the elements of `out`, in order.
-/

namespace Framework

universe u v w

variable {α β : Type u} {σ τ : Type u} {ι : Type v} {ε : Type w} {A C : σ → ι → Prop} {e : ε}
  {R : σ → τ → Prop} {s u : σ}

/-! ## Except inversion -/

variable {x : Except ε α} {f : α → Except ε β}

theorem bind_eq_ok {b : β} : (x >>= f) = .ok b ↔ ∃ a, x = .ok a ∧ f a = .ok b := by
  cases x <;> simp [bind, Except.bind]

theorem bind_eq_error : (x >>= f) = .error e ↔ x = .error e ∨ ∃ a, x = .ok a ∧ f a = .error e := by
  cases x <;> simp [bind, Except.bind]

theorem map_eq_ok {f : α → β} {b : β} : x.map f = .ok b ↔ ∃ a, x = .ok a ∧ f a = b := by
  cases x <;> simp [Except.map]

/-- What a computation comes to can be evaluated. -/
instance decidableOk {P : α → Prop} [DecidablePred P] : Decidable (∃ a, x = .ok a ∧ P a) :=
  match x with
  | .ok a => decidable_of_iff (P a) (by simp)
  | .error _ => isFalse (by simp)

instance decidableOk₂ {P : α → β → Prop} [∀ a, Decidable (∃ b, P a b)] :
    Decidable (∃ a b, x = .ok a ∧ P a b) :=
  decidable_of_iff (∃ a, x = .ok a ∧ ∃ b, P a b) (by simp)

instance decidableOk₃ {γ : Type u} {P : α → β → γ → Prop} [∀ a, Decidable (∃ b c, P a b c)] :
    Decidable (∃ a b c, x = .ok a ∧ P a b c) :=
  decidable_of_iff (∃ a, x = .ok a ∧ ∃ b c, P a b c) (by simp)

theorem map_eq_error {f : α → β} : x.map f = .error e ↔ x = .error e := by
  cases x <;> simp [Except.map]

theorem bind_ne_error (hx : x ≠ .error e) (hf : ∀ a, x = .ok a → f a ≠ .error e) :
    (x >>= f) ≠ .error e := by
  intro h
  rcases bind_eq_error.mp h with herr | ⟨a, ha, herr⟩
  · exact hx herr
  · exact hf a ha herr

@[simp] theorem ok_bind (a : α) (f : α → Except ε β) : (Except.ok a >>= f) = f a := rfl

/-- What holds before and after a step holds if the step is taken only under
a condition. -/
theorem of_guarded {c : Prop} [Decidable c] {P : α → Prop} {a b : α} (ha : P a)
    (hx : c → x = .ok b → P b) (h : (if c then x else .ok a) = .ok b) : P b := by
  split at h
  · next hc => exact hx hc h
  · cases h
    exact ha

theorem of_skipped {c : Prop} [Decidable c] {P : α → Prop} {a b : α} (ha : P a)
    (hx : ¬ c → x = .ok b → P b) (h : (if c then .ok a else x) = .ok b) : P b := by
  split at h
  · cases h
    exact ha
  · next hc => exact hx hc h

/-! ## Runs -/

/-- Take the inputs one after the other. -/
def run (step : σ → ι → Except ε σ) : σ → List ι → Except ε σ
  | s, [] => .ok s
  | s, i :: is => step s i >>= fun s' => run step s' is

/-- Every step of the run meets `C`. A step that stops the run meets it
as well. -/
def Along (step : σ → ι → Except ε σ) (C : σ → ι → Prop) : σ → List ι → Prop
  | _, [] => True
  | s, i :: is => C s i ∧ ∀ s', step s i = .ok s' → Along step C s' is

/-- Every state of the run meets `P`, the first one and the last one
included. -/
def Always (step : σ → ι → Except ε σ) (P : σ → Prop) : σ → List ι → Prop
  | s, [] => P s
  | s, i :: is => P s ∧ ∀ s', step s i = .ok s' → Always step P s' is

section
variable {step : σ → ι → Except ε σ} {s s' : σ} {is : List ι} {I : σ → Prop} {C : σ → ι → Prop}
  {J P : σ → Prop}

theorem Always.head {P : σ → Prop} (h : Always step P s is) : P s := by
  cases is with
  | nil => exact h
  | cons i is => exact h.1

@[simp] theorem run_nil : run step s [] = .ok s := rfl

theorem run_cons (i : ι) (is : List ι) :
    run step s (i :: is) = step s i >>= fun s' => run step s' is := rfl

theorem run_append (is js : List ι) :
    run step s (is ++ js) = run step s is >>= fun s' => run step s' js := by
  induction is generalizing s with
  | nil => rfl
  | cons i is ih =>
    simp only [List.cons_append, run_cons, bind_assoc]
    congr 1
    funext s'
    exact ih

/-- **Invariant rule**: what every step preserves, under a condition on the
step, every run whose steps meet the condition preserves. -/
theorem run_invariant_along (hstep : ∀ s i s', I s → C s i → step s i = .ok s' → I s') (hI : I s)
    (hC : Along step C s is) (hrun : run step s is = .ok s') : I s' := by
  induction is generalizing s with
  | nil =>
    simp only [run_nil, Except.ok.injEq] at hrun
    exact hrun ▸ hI
  | cons i is ih =>
    obtain ⟨t, ht, hrest⟩ := bind_eq_ok.mp hrun
    exact ih (hstep s i t hI hC.1 ht) (hC.2 t ht) hrest

/-- One step that meets the condition, and the rest of the run. -/
theorem Along.cons {i : ι} (hstep : step s i = .ok s') (hC : C s i) (hrest : Along step C s' is) :
    Along step C s (i :: is) := by
  refine ⟨hC, fun t ht => ?_⟩
  obtain rfl : s' = t := Except.ok.inj (hstep.symm.trans ht)
  exact hrest

theorem along_true (s : σ) (is : List ι) : Along step (fun _ _ => True) s is := by
  induction is generalizing s with
  | nil => trivial
  | cons i is ih => exact ⟨trivial, fun s' _ => ih s'⟩

/-- Conditions that agree as long as they are met agree along a run. -/
theorem along_iff_along_where {J : σ → Prop}
    (hkeep : ∀ s i s', J s → C s i → step s i = .ok s' → J s') (hAC : ∀ s i, J s → (A s i ↔ C s i))
    (hJ : J s) : Along step A s is ↔ Along step C s is := by
  induction is generalizing s with
  | nil => exact Iff.rfl
  | cons i is ih =>
    constructor
    · rintro ⟨hA, hrest⟩
      have hC : C s i := (hAC s i hJ).mp hA
      exact ⟨hC, fun s' hs' => (ih (hkeep s i s' hJ hC hs')).mp (hrest s' hs')⟩
    · rintro ⟨hC, hrest⟩
      refine ⟨(hAC s i hJ).mpr hC, fun s' hs' => ?_⟩
      exact (ih (hkeep s i s' hJ hC hs')).mpr (hrest s' hs')

/-- Conditions that agree in every state of a run agree along it. -/
theorem along_iff_along {J : σ → Prop} (hkeep : ∀ s i s', J s → step s i = .ok s' → J s')
    (hAC : ∀ s i, J s → (A s i ↔ C s i)) (hJ : J s) : Along step A s is ↔ Along step C s is :=
  along_iff_along_where (fun s i s' hJ _ => hkeep s i s' hJ) hAC hJ

/-- **Invariant rule** without a condition. -/
theorem run_invariant (hstep : ∀ s i s', I s → step s i = .ok s' → I s') (hI : I s)
    (hrun : run step s is = .ok s') : I s' :=
  run_invariant_along (C := fun _ _ => True) (fun s i s' hs _ => hstep s i s' hs) hI
    (along_true s is) hrun

/-- **Invariant rule** for a program that does not stop: where every state
of the invariant has a next one, every run goes to its end. -/
theorem run_total (hstep : ∀ s i, I s → ∃ s', step s i = .ok s' ∧ I s') (is : List ι) (hI : I s) :
    ∃ s', run step s is = .ok s' ∧ I s' := by
  induction is generalizing s with
  | nil => exact ⟨s, rfl, hI⟩
  | cons i is ih =>
    obtain ⟨t, ht, hIt⟩ := hstep s i hI
    obtain ⟨s', hs', hIs'⟩ := ih hIt
    exact ⟨s', bind_eq_ok.mpr ⟨t, ht, hs'⟩, hIs'⟩

/-- **Characterisation rule**: let the steps that meet `C` preserve `J`, and
let a step that meets `A` and fails `C` lead to a state outside `P`. Then
`P` holds in every state of a run whose steps meet `A` exactly when every
step of it meets `C`. -/
theorem always_and_along_iff (hkeep : ∀ s i s', J s → C s i → step s i = .ok s' → J s')
    (hJP : ∀ s, J s → P s) (hCA : ∀ s i, J s → C s i → A s i)
    (hfail : ∀ s i, J s → A s i → ¬ C s i → ∃ s', step s i = .ok s' ∧ ¬ P s') (hJ : J s) :
    Always step P s is ∧ Along step A s is ↔ Along step C s is := by
  induction is generalizing s with
  | nil => exact iff_of_true ⟨hJP s hJ, trivial⟩ trivial
  | cons i is ih =>
    constructor
    · rintro ⟨h, hA⟩
      have hC : C s i := by
        by_contra hn
        obtain ⟨t, ht, hPt⟩ := hfail s i hJ hA.1 hn
        exact hPt (h.2 t ht).head
      exact ⟨hC, fun t ht => (ih (hkeep s i t hJ hC ht)).mp ⟨h.2 t ht, hA.2 t ht⟩⟩
    · rintro ⟨hC, hrest⟩
      have hnext : ∀ t, step s i = .ok t → Always step P t is ∧ Along step A t is :=
        fun t ht => (ih (hkeep s i t hJ hC ht)).mpr (hrest t ht)
      exact ⟨⟨hJP s hJ, fun t ht => (hnext t ht).1⟩, hCA s i hJ hC, fun t ht => (hnext t ht).2⟩

theorem along_and :
    Along step (fun s i => A s i ∧ C s i) s is ↔ Along step A s is ∧ Along step C s is := by
  induction is generalizing s with
  | nil => exact (and_self_iff).symm
  | cons i is ih =>
    constructor
    · rintro ⟨⟨hA, hC⟩, hrest⟩
      exact ⟨⟨hA, fun t ht => (ih.mp (hrest t ht)).1⟩, hC, fun t ht => (ih.mp (hrest t ht)).2⟩
    · rintro ⟨⟨hA, hAs⟩, hC, hCs⟩
      exact ⟨⟨hA, hC⟩, fun t ht => ih.mpr ⟨hAs t ht, hCs t ht⟩⟩

/-- **Characterisation rule** for the runs whose steps meet `A`. -/
theorem always_iff_along_where (hkeep : ∀ s i s', J s → A s i → C s i → step s i = .ok s' → J s')
    (hJP : ∀ s, J s → P s) (hfail : ∀ s i, J s → A s i → ¬ C s i → ∃ s', step s i = .ok s' ∧ ¬ P s')
    (hJ : J s) (hA : Along step A s is) : Always step P s is ↔ Along step C s is := by
  have h : Always step P s is ∧ Along step A s is ↔
      Along step (fun s i => A s i ∧ C s i) s is :=
    always_and_along_iff (fun s i s' hJ hAC => hkeep s i s' hJ hAC.1 hAC.2) hJP
      (fun _ _ _ hAC => hAC.1)
      (fun s i hJ hA hn => hfail s i hJ hA fun hC => hn ⟨hA, hC⟩) hJ
  constructor
  · intro hP
    exact (along_and.mp (h.mp ⟨hP, hA⟩)).2
  · intro hC
    exact (h.mpr (along_and.mpr ⟨hA, hC⟩)).1

/-- **Characterisation rule** for the states alone. -/
theorem always_iff_along (hkeep : ∀ s i s', J s → C s i → step s i = .ok s' → J s')
    (hJP : ∀ s, J s → P s) (hfail : ∀ s i, J s → ¬ C s i → ∃ s', step s i = .ok s' ∧ ¬ P s')
    (hJ : J s) : Always step P s is ↔ Along step C s is :=
  always_iff_along_where (A := fun _ _ => True) (fun s i s' hJ _ => hkeep s i s' hJ) hJP
    (fun s i hJ _ => hfail s i hJ) hJ (along_true s is)

/-- A condition that every state meets on the inputs of the run is met
along it. -/
theorem along_of_forall (h : ∀ i ∈ is, ∀ s, C s i) : Along step C s is := by
  induction is generalizing s with
  | nil => trivial
  | cons i is ih =>
    exact ⟨h i (by simp) s, fun s' _ => ih (fun j hj => h j (by simp [hj]))⟩

/-- Along a concrete run a condition can be checked. -/
instance decidableAlong {C : σ → ι → Prop} [∀ s i, Decidable (C s i)] :
    (s : σ) → (is : List ι) → Decidable (Along step C s is)
  | _, [] => .isTrue trivial
  | s, i :: is =>
    match hstep : step s i with
    | .ok t =>
      have : Decidable (Along step C t is) := decidableAlong t is
      decidable_of_iff (C s i ∧ Along step C t is)
        ⟨fun h => ⟨h.1, fun t' ht' => by rw [hstep] at ht'; cases ht'; exact h.2⟩,
          fun h => ⟨h.1, h.2 t hstep⟩⟩
    | .error e =>
      decidable_of_iff (C s i)
        ⟨fun h => ⟨h, fun t ht => by rw [hstep] at ht; cases ht⟩, fun h => h.1⟩

/-- **Error rule**: if a step raises `e` exactly when it fails `C`, a run
raises `e` exactly when some step of it fails `C`. The inputs of the
run may be taken from a class `P`. -/
theorem run_ne_error_iff {P : ι → Prop} (hstep : ∀ s i s', I s → P i → step s i = .ok s' → I s')
    (herr : ∀ s i, I s → P i → (step s i = .error e ↔ ¬ C s i)) (hP : ∀ i ∈ is, P i) (hI : I s) :
    run step s is ≠ .error e ↔ Along step C s is := by
  induction is generalizing s with
  | nil => simp [Along]
  | cons i is ih =>
    have hPi : P i := hP i (by simp)
    have hPis : ∀ j ∈ is, P j := fun j hj => hP j (by simp [hj])
    rw [run_cons, Ne, bind_eq_error, herr s i hI hPi]
    constructor
    · intro h
      have hCi : C s i := Classical.not_not.mp fun hn => h (.inl hn)
      refine ⟨hCi, fun t ht => (ih hPis (hstep s i t hI hPi ht)).mp ?_⟩
      intro hrun
      exact h (.inr ⟨t, ht, hrun⟩)
    · rintro ⟨hCi, hrest⟩ (hn | ⟨t, ht, hrun⟩)
      · exact hn hCi
      · exact (ih hPis (hstep s i t hI hPi ht)).mpr (hrest t ht) hrun

theorem run_ne_error (hstep : ∀ s i s', I s → step s i = .ok s' → I s')
    (herr : ∀ s i, I s → step s i ≠ .error e) (hI : I s) (is : List ι) :
    run step s is ≠ .error e := by
  refine (run_ne_error_iff (I := I) (C := fun _ _ => True) (P := fun _ => True)
    (fun s i s' hs _ => hstep s i s' hs) (fun s i hs _ => ?_) (fun _ _ => trivial) hI).mpr
    (along_true _ is)
  exact ⟨fun h => absurd h (herr s i hs), fun hnot => absurd trivial hnot⟩

theorem run_error_of_mem {i : ι} (hi : i ∈ is) (h : ∀ s, ∃ e, step s i = .error e) :
    ∃ e, run step s is = .error e := by
  induction is generalizing s with
  | nil => cases hi
  | cons j is ih =>
    match hj : step s j with
    | .error e =>
      refine ⟨e, ?_⟩
      rw [run_cons, hj]
      rfl
    | .ok t =>
      rcases List.mem_cons.mp hi with rfl | hmem
      · obtain ⟨e, he⟩ := h s
        rw [hj] at he
        cases he
      · rw [run_cons, hj]
        exact ih hmem

theorem run_congr {step' : σ → ι → Except ε σ} (h : ∀ i ∈ is, ∀ s, step s i = step' s i) :
    run step s is = run step' s is := by
  induction is generalizing s with
  | nil => rfl
  | cons i is ih =>
    rw [run_cons, run_cons, h i (by simp)]
    congr 1
    funext t
    exact ih fun j hj => h j (by simp [hj])

/-- A loop over the indices of a list is a loop over its elements. -/
theorem run_range [Inhabited ι] (is : List ι) :
    run (fun s k => step s (is.getD k default)) s (List.range is.length) = run step s is := by
  have hmap : ∀ (ks : List Nat) (s : σ), run (fun s k => step s (is.getD k default)) s ks =
      run step s (ks.map fun k => is.getD k default) := by
    intro ks
    induction ks with
    | nil => intro s; rfl
    | cons k ks ih =>
      intro s
      rw [List.map_cons, run_cons, run_cons]
      congr 1
      funext t
      exact ih t
  have hself : ((List.range is.length).map fun k => is.getD k default) = is := by
    apply List.ext_getElem
    · simp
    · intro k h₁ h₂
      simp [List.getD, h₂]
  rw [hmap, hself]

end

/-! ## Two runs -/

/-- Two results agree up to `R`: both went on to related states, or both
stopped for the same reason. -/
inductive Agree (R : σ → τ → Prop) : Except ε σ → Except ε τ → Prop
  | ok {s : σ} {t : τ} (h : R s t) : Agree R (.ok s) (.ok t)
  | error (e : ε) : Agree R (.error e) (.error e)

section
variable {R S : σ → τ → Prop} {x : Except ε σ} {y : Except ε τ}

theorem Agree.bind {γ δ : Type u} {S : γ → δ → Prop} {f : σ → Except ε γ} {g : τ → Except ε δ}
    (hxy : Agree R x y) (hfg : ∀ s t, R s t → Agree S (f s) (g t)) :
    Agree S (x >>= f) (y >>= g) := by
  cases hxy with
  | ok h => exact hfg _ _ h
  | error e => exact .error e

theorem Agree.refl (x : Except ε σ) : Agree Eq x x := by
  cases x with
  | ok s => exact .ok rfl
  | error e => exact .error e

theorem Agree.symm (h : Agree R x y) : Agree (fun t s => R s t) y x := by
  cases h with
  | ok h => exact .ok h
  | error e => exact .error e

theorem Agree.trans {γ : Type u} {S : τ → γ → Prop} {z : Except ε γ} (hxy : Agree R x y)
    (hyz : Agree S y z) : Agree (fun s u => ∃ t, R s t ∧ S t u) x z := by
  cases hxy with
  | ok h =>
    cases hyz with
    | ok h' => exact .ok ⟨_, h, h'⟩
  | error e =>
    cases hyz with
    | error e => exact .error e

theorem Agree.mono (h : Agree R x y) (hRS : ∀ s t, R s t → S s t) : Agree S x y := by
  cases h with
  | ok h => exact .ok (hRS _ _ h)
  | error e => exact .error e

theorem Agree.error_iff (h : Agree R x y) (e : ε) : x = .error e ↔ y = .error e := by
  cases h with
  | ok h => simp
  | error e' => simp only [Except.error.injEq]

theorem Agree.ok_left (h : Agree R x y) {s : σ} (hx : x = .ok s) : ∃ t, y = .ok t ∧ R s t := by
  subst hx
  cases h with
  | ok h => exact ⟨_, rfl, h⟩

theorem Agree.ok_right (h : Agree R x y) {t : τ} (hy : y = .ok t) : ∃ s, x = .ok s ∧ R s t := by
  subst hy
  cases h with
  | ok h => exact ⟨_, rfl, h⟩

/-- What related states have in common, agreeing results have in common. -/
theorem Agree.map_eq {γ : Type u} (h : Agree R x y) {f : σ → γ} {g : τ → γ}
    (hfg : ∀ s t, R s t → f s = g t) : x.map f = y.map g := by
  cases h with
  | ok h => exact congrArg Except.ok (hfg _ _ h)
  | error e => rfl

theorem Agree.ite {c d : Prop} [Decidable c] [Decidable d] {x' : Except ε σ} {y' : Except ε τ}
    (hcd : c ↔ d) (hpos : d → Agree R x y) (hneg : ¬ d → Agree R x' y') :
    Agree R (if c then x else x') (if d then y else y') := by
  by_cases hd : d
  · rw [if_pos hd, if_pos (hcd.mpr hd)]
    exact hpos hd
  · rw [if_neg hd, if_neg (fun hc => hd (hcd.mp hc))]
    exact hneg hd

theorem Agree.mapError {ε' : Type w} (h : Agree R x y) (f : ε → ε') :
    Agree R (x.mapError f) (y.mapError f) := by
  cases h with
  | ok h => exact .ok h
  | error e => exact .error (f e)

end

/-- **Two-run rule**: a relation that every pair of steps on the same input
keeps, every pair of runs on the same inputs keeps. The inputs may be
taken from a class `P`. -/
theorem run_agree {step : σ → ι → Except ε σ} {step' : τ → ι → Except ε τ} {P : ι → Prop}
    (hstep : ∀ s t i, P i → R s t → Agree R (step s i) (step' t i)) {is : List ι}
    (hP : ∀ i ∈ is, P i) {s : σ} {t : τ} (h : R s t) :
    Agree R (run step s is) (run step' t is) := by
  induction is generalizing s t with
  | nil => exact .ok h
  | cons i is ih =>
    exact (hstep s t i (hP i (by simp)) h).bind fun s' t' h' =>
      ih (fun j hj => hP j (by simp [hj])) h'

/-! ## Handlers in sequence -/

/-- What a handler does: fall through to the next one, or end the round. -/
inductive Flow (σ : Type u) where
  | next (s : σ)
  | continue (s : σ)

/-- The state a handler leaves. -/
def Flow.state : Flow σ → σ
  | .next s => s
  | .continue s => s

/-- The same flow, to another state. -/
def Flow.map (f : σ → τ) : Flow σ → Flow τ
  | .next s => .next (f s)
  | .continue s => .continue (f s)

/-- The same flow, to related states. -/
inductive Flow.Rel (R : σ → τ → Prop) : Flow σ → Flow τ → Prop
  | next {s : σ} {t : τ} (h : R s t) : Flow.Rel R (.next s) (.next t)
  | continue {s : σ} {t : τ} (h : R s t) : Flow.Rel R (.continue s) (.continue t)

theorem Flow.Rel.state {f : Flow σ} {f' : Flow τ} (h : Flow.Rel R f f') : R f.state f'.state := by
  cases h with
  | next h => exact h
  | «continue» h => exact h

section
variable {κ : Type v} {exec' : κ → τ → Except ε (Flow τ)} {ks : List κ} {s : σ} {I : σ → Prop}
  {R : σ → τ → Prop} {t : τ}

/-- Run handlers until one of them ends the round. -/
def pipeline (exec : κ → σ → Except ε (Flow σ)) : List κ → σ → Except ε (Flow σ)
  | [], s => .ok (.next s)
  | k :: ks, s => exec k s >>= fun
    | .next s => pipeline exec ks s
    | .continue s => .ok (.continue s)

variable {exec : κ → σ → Except ε (Flow σ)}

theorem pipeline_cons (k : κ) (ks : List κ) (s : σ) :
    pipeline exec (k :: ks) s = exec k s >>= fun
      | .next s => pipeline exec ks s
      | .continue s => .ok (.continue s) := rfl

theorem pipeline_congr {exec' : κ → σ → Except ε (Flow σ)}
    (h : ∀ k ∈ ks, ∀ s, exec k s = exec' k s) : pipeline exec ks s = pipeline exec' ks s := by
  induction ks generalizing s with
  | nil => rfl
  | cons k ks ih =>
    rw [pipeline_cons, pipeline_cons, h k (by simp)]
    congr 1
    funext f
    cases f with
    | next t => exact ih fun j hj => h j (by simp [hj])
    | «continue» t => rfl

theorem pipeline_append (ks ls : List κ) (s : σ) :
    pipeline exec (ks ++ ls) s = pipeline exec ks s >>= fun
      | .next s => pipeline exec ls s
      | .continue s => .ok (.continue s) := by
  induction ks generalizing s with
  | nil => rfl
  | cons k ks ih =>
    rw [List.cons_append, pipeline_cons, pipeline_cons, bind_assoc]
    congr 1
    funext f
    match f with
    | .next s => exact ih s
    | .continue s => rfl

theorem pipeline_cons_eq_next {k : κ} :
    pipeline exec (k :: ks) s = .ok (.next u) ↔
      ∃ t, exec k s = .ok (.next t) ∧ pipeline exec ks t = .ok (.next u) := by
  rw [pipeline_cons, bind_eq_ok]
  constructor
  · rintro ⟨f, hf, hrest⟩
    match f with
    | .next t => exact ⟨t, hf, hrest⟩
    | .continue t => cases hrest
  · rintro ⟨t, ht, hrest⟩
    exact ⟨.next t, ht, hrest⟩

/-- What every handler that ends the round leaves true, a round that is
ended leaves true. -/
theorem pipeline_continue {Q : σ → Prop} (h : ∀ k ∈ ks, ∀ s t, exec k s = .ok (.continue t) → Q t)
    {s t : σ} (ht : pipeline exec ks s = .ok (.continue t)) : Q t := by
  induction ks generalizing s with
  | nil => cases ht
  | cons k ks ih =>
    obtain ⟨f, hf, hrest⟩ := bind_eq_ok.mp ht
    match f with
    | .next s' => exact ih (fun k hk => h k (by simp [hk])) hrest
    | .continue s' =>
      cases hrest
      exact h k (by simp) s t hf

/-- **Error rule**: an error that no handler raises, the round does not
raise. -/
theorem pipeline_ne_error (h : ∀ k ∈ ks, ∀ s f, I s → exec k s = .ok f → I f.state)
    (herr : ∀ k ∈ ks, ∀ s, I s → exec k s ≠ .error e) (hI : I s) :
    pipeline exec ks s ≠ .error e := by
  induction ks generalizing s with
  | nil => simp [pipeline]
  | cons k ks ih =>
    intro hrun
    rcases bind_eq_error.mp hrun with hk | ⟨f, hf, hrest⟩
    · exact herr k (by simp) s hI hk
    · match f with
      | .next s' =>
        exact ih (fun k hk => h k (by simp [hk])) (fun k hk => herr k (by simp [hk]))
          (h k (by simp) s _ hI hf) hrest
      | .continue s' => cases hrest

/-- The states that a round passes through. -/
inductive Passes (exec : κ → σ → Except ε (Flow σ)) : List κ → σ → σ → Prop
  | here (ks : List κ) (s : σ) : Passes exec ks s s
  | stop {k : κ} (ks : List κ) {s t : σ} (h : exec k s = .ok (.continue t)) :
    Passes exec (k :: ks) s t
  | step {k : κ} {ks : List κ} {s t u : σ} (h : exec k s = .ok (.next t))
    (hrest : Passes exec ks t u) : Passes exec (k :: ks) s u

theorem passes_of_pipeline {f : Flow σ} (h : pipeline exec ks s = .ok f) :
    Passes exec ks s f.state := by
  induction ks generalizing s with
  | nil =>
    cases h
    exact .here [] s
  | cons k ks ih =>
    obtain ⟨g, hg, hrest⟩ := bind_eq_ok.mp h
    match g with
    | .next t => exact .step hg (ih hrest)
    | .continue t =>
      cases hrest
      exact .stop ks hg

/-- What every handler preserves holds in every state of the round. -/
theorem passes_invariant (h : ∀ k ∈ ks, ∀ s f, I s → exec k s = .ok f → I f.state) {s t : σ}
    (hI : I s) (ht : Passes exec ks s t) : I t := by
  induction ht with
  | here ks s => exact hI
  | stop ks hstop => exact h _ (by simp) _ _ hI hstop
  | step hstep hrest ih =>
    exact ih (fun k hk => h k (by simp [hk])) (h _ (by simp) _ _ hI hstep)

/-- **Invariant rule**: what every handler preserves, the round preserves. -/
theorem pipeline_invariant (h : ∀ k ∈ ks, ∀ s f, I s → exec k s = .ok f → I f.state) {f : Flow σ}
    (hI : I s) (hf : pipeline exec ks s = .ok f) : I f.state :=
  passes_invariant h hI (passes_of_pipeline hf)

/-- A state of a round is a state of its first part, or of the second part
after the first has fallen through. -/
theorem passes_append {ks ls : List κ} (h : Passes exec (ks ++ ls) s u) :
    Passes exec ks s u ∨ ∃ t, pipeline exec ks s = .ok (.next t) ∧ Passes exec ls t u := by
  induction ks generalizing s with
  | nil => exact .inr ⟨s, rfl, h⟩
  | cons k ks ih =>
    rw [List.cons_append] at h
    cases h with
    | here => exact .inl (.here _ _)
    | stop _ hstop => exact .inl (.stop ks hstop)
    | step hstep hrest =>
      rcases ih hrest with hpass | ⟨t, ht, hpass⟩
      · exact .inl (.step hstep hpass)
      · refine .inr ⟨t, ?_, hpass⟩
        rw [pipeline_cons, hstep]
        exact ht

/-- **Two-run rule** for rounds, with an invariant of the second one. -/
theorem pipeline_agree_of_inv {I : τ → Prop}
    (h : ∀ k ∈ ks, ∀ s t, R s t → I t → Agree (Flow.Rel R) (exec k s) (exec' k t))
    (hinv : ∀ k ∈ ks, ∀ t f, I t → exec' k t = .ok f → I f.state) (hR : R s t) (hI : I t) :
    Agree (Flow.Rel R) (pipeline exec ks s) (pipeline exec' ks t) := by
  induction ks generalizing s t with
  | nil => exact .ok (.next hR)
  | cons k ks ih =>
    have hk := h k (by simp) s t hR hI
    rw [pipeline_cons, pipeline_cons]
    match exec k s, hexec : exec' k t, hk with
    | _, _, .error e => exact .error e
    | .ok (.continue s'), .ok (.continue t'), .ok (.continue hf) => exact .ok (.continue hf)
    | .ok (.next s'), .ok (.next t'), .ok (.next hf) =>
      exact ih (fun k hk => h k (by simp [hk])) (fun k hk => hinv k (by simp [hk])) hf
        (hinv k (by simp) t _ hI hexec)

/-- **Two-run rule** for rounds. -/
theorem pipeline_agree (h : ∀ k s t, R s t → Agree (Flow.Rel R) (exec k s) (exec' k t))
    (ks : List κ) (hR : R s t) : Agree (Flow.Rel R) (pipeline exec ks s) (pipeline exec' ks t) :=
  pipeline_agree_of_inv (I := fun _ => True) (fun k _ s t hR _ => h k s t hR)
    (fun _ _ _ _ _ _ => trivial) hR trivial

theorem pipeline_agree_append {ks ls : List κ}
    (hks : Agree (Flow.Rel R) (pipeline exec ks s) (pipeline exec' ks t))
    (hls : ∀ s t, R s t → Agree (Flow.Rel R) (pipeline exec ls s) (pipeline exec' ls t)) :
    Agree (Flow.Rel R) (pipeline exec (ks ++ ls) s) (pipeline exec' (ks ++ ls) t) := by
  rw [pipeline_append, pipeline_append]
  apply hks.bind
  intro f f' hf
  cases hf with
  | next hf => exact hls _ _ hf
  | «continue» hf => exact .ok (.continue hf)

theorem passes_agree (h : ∀ k s t, R s t → Agree (Flow.Rel R) (exec k s) (exec' k t)) (hR : R s t)
    (hp : Passes exec ks s u) : ∃ v, Passes exec' ks t v ∧ R u v := by
  induction hp generalizing t with
  | here ks s => exact ⟨t, .here ks t, hR⟩
  | stop ks hstop =>
    obtain ⟨f, hf, hrel⟩ := (h _ _ _ hR).ok_left hstop
    cases hrel with
    | «continue» hv => exact ⟨_, .stop ks hf, hv⟩
  | step hstep _ ih =>
    obtain ⟨f, hf, hrel⟩ := (h _ _ _ hR).ok_left hstep
    cases hrel with
    | next hv =>
      obtain ⟨v, hpass, hRv⟩ := ih hv
      exact ⟨v, .step hf hpass, hRv⟩

end

/-! ## Append-only programs -/

section
variable {add : σ → ι → Except ε σ}

/-- The program `m` adds the elements of `out` to its store, in order, does
nothing else to it, and returns `x`. -/
def Emits (add : σ → ι → Except ε σ) (m : StateT σ (Except ε) α) (x : α)
    (out : List ι) : Prop :=
  ∀ s, m s = run add s out >>= fun s' => .ok (x, s')

theorem Emits.pure (x : α) : Emits add (pure x) x [] := fun _ => rfl

theorem Emits.bind {m : StateT σ (Except ε) α} {f : α → StateT σ (Except ε) β} {x : α} {y : β}
    {o₁ o₂ : List ι} (h₁ : Emits add m x o₁) (h₂ : Emits add (f x) y o₂) :
    Emits add (m >>= f) y (o₁ ++ o₂) := by
  intro s
  show (m s >>= fun p => f p.1 p.2) = _
  rw [h₁ s, run_append]
  simp only [bind_assoc, ok_bind]
  congr 1
  funext s'
  exact h₂ s'

end

end Framework
