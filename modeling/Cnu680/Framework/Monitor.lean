import Cnu680.Framework.Exec

/-! # Logs and Monitors

A run can be made to keep a log of what happened in it, without the
program knowing. A *monitor* reads such a log event by event and stops
at the first event that should not have happened; it is again a step
function, so `run` runs it.

* **Logs**: `runLog` for runs, `pipelineLog` for rounds of handlers.
* **Monitor rules**: a relation between the state of the monitor and the
  state of the program that every step keeps, and under which the
  monitor accepts what the step logs, makes the monitor accept the log
  of every run.
-/

namespace Framework

universe u v w

variable {σ τ : Type u} {ι κ μ : Type v} {ε δ : Type w}

/-! ## Logs -/

/-- What a run logs, until it stops. -/
def runLog (step : σ → ι → Except ε σ) (log : σ → ι → List μ) : σ → List ι → List μ
  | _, [] => []
  | s, i :: is => log s i ++
    match step s i with
    | .ok s' => runLog step log s' is
    | .error _ => []

/-- What a round of handlers logs, each of them with the state it found and
what it did. A handler that stops the program logs nothing. -/
def pipelineLog (exec : κ → σ → Except ε (Flow σ)) (log : κ → σ → Flow σ → List μ) :
    List κ → σ → List μ
  | [], _ => []
  | k :: ks, s =>
    match exec k s with
    | .ok (.next t) => log k s (.next t) ++ pipelineLog exec log ks t
    | .ok (.continue t) => log k s (.continue t)
    | .error _ => []

section
variable {exec : κ → σ → Except ε (Flow σ)} {log : κ → σ → Flow σ → List μ}

theorem pipelineLog_append (ks ls : List κ) (s : σ) :
    pipelineLog exec log (ks ++ ls) s = pipelineLog exec log ks s ++
      match pipeline exec ks s with
      | .ok (.next t) => pipelineLog exec log ls t
      | _ => [] := by
  induction ks generalizing s with
  | nil => rfl
  | cons k ks ih =>
    rw [List.cons_append, pipelineLog, pipelineLog, pipeline_cons]
    match exec k s with
    | .ok (.next t) =>
      dsimp only
      rw [ih, List.append_assoc]
      rfl
    | .ok (.continue t) => simp
    | .error e => rfl

end

/-! ## Monitors -/

section
variable {mon : τ → μ → Except δ τ} {b : τ} {step : σ → ι → Except ε σ} {log : σ → ι → List μ}
  {R : τ → σ → Prop} {Q Q' : τ → Prop}

/-- The monitor, in state `b`, accepts the log and comes to a state that
meets `Q`. -/
def Accepts (mon : τ → μ → Except δ τ) (b : τ) (l : List μ) (Q : τ → Prop) : Prop :=
  ∃ b', run mon b l = .ok b' ∧ Q b'

theorem accepts_nil {Q : τ → Prop} (h : Q b) : Accepts mon b [] Q := ⟨b, rfl, h⟩

theorem Accepts.mono {l : List μ} (h : Accepts mon b l Q)
    (hQ : ∀ b, Q b → Q' b) : Accepts mon b l Q' := by
  obtain ⟨b', hb', hq⟩ := h
  exact ⟨b', hb', hQ b' hq⟩

theorem Accepts.append {l m : List μ} (hl : Accepts mon b l Q)
    (hm : ∀ b, Q b → Accepts mon b m Q') : Accepts mon b (l ++ m) Q' := by
  obtain ⟨b', hb', hq⟩ := hl
  obtain ⟨b'', hb'', hq'⟩ := hm b' hq
  refine ⟨b'', ?_, hq'⟩
  rw [run_append, hb', ok_bind, hb'']

section
variable {exec : κ → σ → Except ε (Flow σ)} {log : κ → σ → Flow σ → List μ} {R : τ → σ → Prop}
  {b : τ} {s : σ}

/-- The monitor accepts the log of a round and is then related to the state
that the round leaves. -/
def RoundAccepts (mon : τ → μ → Except δ τ) (exec : κ → σ → Except ε (Flow σ))
    (log : κ → σ → Flow σ → List μ) (R : τ → σ → Prop) (b : τ) (ks : List κ) (s : σ) : Prop :=
  Accepts mon b (pipelineLog exec log ks s) fun b' =>
    ∀ f, pipeline exec ks s = .ok f → R b' f.state

theorem roundAccepts_single {k : κ}
    (h : ∀ f, exec k s = .ok f → Accepts mon b (log k s f) fun b' => R b' f.state) :
    RoundAccepts mon exec log R b [k] s := by
  unfold RoundAccepts
  rw [pipelineLog, pipeline_cons]
  match hk : exec k s with
  | .error e =>
    apply accepts_nil
    intro f hf
    cases hf
  | .ok (.next t) =>
    have hlog : log k s (.next t) ++ pipelineLog exec log [] t = log k s (.next t) :=
      List.append_nil _
    dsimp only
    rw [hlog]
    apply (h _ hk).mono
    intro b' hb' f hf
    cases hf
    exact hb'
  | .ok (.continue t) =>
    apply (h _ hk).mono
    intro b' hb' f hf
    cases hf
    exact hb'

theorem RoundAccepts.append {ks ls : List κ} (hks : RoundAccepts mon exec log R b ks s)
    (hls : ∀ b' t, pipeline exec ks s = .ok (.next t) → R b' t →
      RoundAccepts mon exec log R b' ls t) : RoundAccepts mon exec log R b (ks ++ ls) s := by
  unfold RoundAccepts
  rw [pipelineLog_append, pipeline_append]
  apply Accepts.append hks
  intro b' hb'
  -- only a first part that comes to its end is followed by the second
  match hrun : pipeline exec ks s with
  | .error e =>
    apply accepts_nil
    intro f hf
    cases hf
  | .ok (.next t) => exact hls b' t hrun (hb' _ hrun)
  | .ok (.continue t) =>
    apply accepts_nil
    intro f hf
    cases hf
    exact hb' _ hrun

/-- **Monitor rule** for rounds whose log meets a condition: the monitor
accepts the log of a round if it accepts that of each of its handlers. -/
theorem roundAccepts_of_handlers_where {G : μ → Prop} {ks : List κ}
    (h : ∀ k ∈ ks, ∀ b s f, R b s → exec k s = .ok f → (∀ c ∈ log k s f, G c) →
      Accepts mon b (log k s f) fun b' => R b' f.state) (hR : R b s)
    (hG : ∀ c ∈ pipelineLog exec log ks s, G c) : RoundAccepts mon exec log R b ks s := by
  induction ks generalizing b s with
  | nil =>
    apply accepts_nil
    intro f hf
    cases hf
    exact hR
  | cons k ks ih =>
    have hsplit : k :: ks = [k] ++ ks := rfl
    rw [hsplit, pipelineLog_append] at hG
    have hfirst : RoundAccepts mon exec log R b [k] s := by
      apply roundAccepts_single
      intro f hf
      apply h k (by simp) b s f hR hf
      intro c hc
      apply hG c
      rw [pipelineLog, hf]
      cases f <;> simp [hc]
    apply hfirst.append
    intro b' t ht hR'
    apply ih (fun k hk => h k (by simp [hk])) hR'
    intro c hc
    apply hG c
    rw [ht]
    exact List.mem_append_right _ hc

/-- **Monitor rule** for rounds. -/
theorem roundAccepts_of_handlers {ks : List κ}
    (h : ∀ k ∈ ks, ∀ b s f, R b s → exec k s = .ok f →
      Accepts mon b (log k s f) fun b' => R b' f.state) (hR : R b s) :
    RoundAccepts mon exec log R b ks s :=
  roundAccepts_of_handlers_where (G := fun _ => True) (fun k hk b s f hR hf _ => h k hk b s f hR hf)
    hR (fun _ _ => trivial)

end

/-- **Monitor rule** for runs whose steps meet a condition. -/
theorem runLog_accepts_along {C : σ → ι → Prop} (h : ∀ b s i, R b s → C s i →
      Accepts mon b (log s i) fun b' => ∀ s', step s i = .ok s' → R b' s') {s : σ} {is : List ι}
    (hR : R b s) (hC : Along step C s is) :
    Accepts mon b (runLog step log s is) fun b' => ∀ s', run step s is = .ok s' → R b' s' := by
  induction is generalizing b s with
  | nil =>
    apply accepts_nil
    intro s' hs'
    cases hs'
    exact hR
  | cons i is ih =>
    rw [runLog, run_cons]
    apply (h b s i hR hC.1).append
    intro b' hb'
    -- a step that fails ends the log
    match hstep : step s i with
    | .error e =>
      apply accepts_nil
      intro s' hs'
      cases hs'
    | .ok t => exact ih (hb' t hstep) (hC.2 t hstep)

/-- **Monitor rule** for runs. -/
theorem runLog_accepts
    (h : ∀ b s i, R b s → Accepts mon b (log s i) fun b' => ∀ s', step s i = .ok s' → R b' s')
    {s : σ} {is : List ι} (hR : R b s) :
    Accepts mon b (runLog step log s is) fun b' => ∀ s', run step s is = .ok s' → R b' s' :=
  runLog_accepts_along (C := fun _ _ => True) (fun b s i hR _ => h b s i hR) hR (along_true s is)

end

end Framework
