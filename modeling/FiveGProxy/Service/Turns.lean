import FiveGProxy.Service.Model
import Mathlib.Data.List.Basic

/-!
# What one action does

An action changes the engine, one service, the current service, or the coroutines: it can launch
some and cancel some. What the others have still to do stays as it is (`Evolves`).
-/

namespace FiveGProxy

open Steps Service Process

namespace App

variable {st st' : App} {i : ℕ} {answer : Bool} {a : Act}

/-! ### The parts of `perform` -/

@[simp] theorem update_coroutines (st : App) (i : ℕ) (f : ProxyService → ProxyService) :
    (st.update i f).coroutines = st.coroutines := rfl

theorem launch_eq (st : App) (i : ℕ) (job : Option ℕ) (c : Coroutine) :
    ∃ coroutines, st.launch i job c = { st with coroutines := coroutines } := by
  unfold launch
  split
  · exact ⟨_, rfl⟩
  · exact ⟨_, rfl⟩

/-- The engine, the current service and the service `i` after the action; the coroutines are the
subject of `perform_coroutines`. -/
theorem perform_app (st : App) (i : ℕ) (answer : Bool) (a : Act) :
    ∃ (coroutines : List LaunchedCoroutine) (jobs : ℕ) (service : ProxyService),
      (st.perform i answer a).1 =
          { st with
            engine := if a = .startSocks5Server then true
              else if a = .stopSocks5Server then false else st.engine
            current := if a = .cancelScope then none else st.current
            services := Function.update st.services i service
            coroutines := coroutines
            jobs := jobs } ∧
        (∀ f, service.flag f = if a = .write f true then true
          else if a = .write f false then false else (st.services i).flag f) ∧
        service.scopeCancelled =
          (if a = .cancelScope then true else (st.services i).scopeCancelled) ∧
        service.selfStopped = if a = .stopSelf then true else (st.services i).selfStopped := by
  have hkeep : Function.update st.services i (st.services i) = st.services :=
    Function.update_eq_self i st.services
  cases a with
  | write g value =>
      refine ⟨_, _, { st.services i with flag := Function.update (st.services i).flag g value }, rfl,
        fun f => ?_, rfl, rfl⟩
      by_cases hg : f = g
      · subst hg
        cases value <;> simp
      · have hne : g ≠ f := fun h => hg h.symm
        simp [hg, hne]
  | setRetries n => exact ⟨_, _, _, rfl, fun f => rfl, rfl, rfl⟩
  | takeRetry => exact ⟨_, _, _, rfl, fun f => rfl, rfl, rfl⟩
  | stopSelf => exact ⟨_, _, _, rfl, fun f => rfl, rfl, rfl⟩
  | forgetLoops => exact ⟨_, _, _, rfl, fun f => rfl, rfl, rfl⟩
  | cancelScope => exact ⟨_, _, _, rfl, fun f => rfl, rfl, rfl⟩
  | launch c =>
      obtain ⟨coroutines, heq⟩ := st.launch_eq i none c
      refine ⟨coroutines, st.jobs, st.services i, ?_, fun f => rfl, rfl, rfl⟩
      rw [hkeep]
      exact heq
  | launchLoops =>
      simp only [perform]
      generalize hupdate : App.update { st with jobs := st.jobs + 1 } i _ = first
      obtain ⟨l, hfirst⟩ := first.launch_eq i (some st.jobs) (.healthCheck 0)
      obtain ⟨coroutines, hsecond⟩ :=
        (first.launch i (some st.jobs) (.healthCheck 0)).launch_eq i (some st.jobs) .watchdog
      refine ⟨coroutines, st.jobs + 1, { st.services i with loopsJob := some st.jobs }, ?_,
        fun f => rfl, rfl, rfl⟩
      rw [hsecond, hfirst, ← hupdate]
      rfl
  | cancelLoops =>
      refine ⟨(st.perform i answer .cancelLoops).1.coroutines, st.jobs, st.services i, ?_,
        fun f => rfl, rfl, rfl⟩
      rw [hkeep]
      simp only [perform]
      split <;> rfl
  | _ =>
      refine ⟨st.coroutines, st.jobs, st.services i, ?_, fun f => rfl, rfl, rfl⟩
      rw [hkeep]
      rfl

theorem perform_created (st : App) (i : ℕ) (answer : Bool) (a : Act) :
    (st.perform i answer a).1.created = st.created := by
  obtain ⟨coroutines, jobs, service, heq, -⟩ := st.perform_app i answer a
  rw [heq]

theorem perform_command (st : App) (i : ℕ) (answer : Bool) (a : Act) :
    (st.perform i answer a).1.command = st.command := by
  obtain ⟨coroutines, jobs, service, heq, -⟩ := st.perform_app i answer a
  rw [heq]

theorem perform_main (st : App) (i : ℕ) (answer : Bool) (a : Act) :
    (st.perform i answer a).1.main = st.main := by
  obtain ⟨coroutines, jobs, service, heq, -⟩ := st.perform_app i answer a
  rw [heq]

theorem perform_current (st : App) (i : ℕ) (answer : Bool) (ha : a ≠ .cancelScope) :
    (st.perform i answer a).1.current = st.current := by
  obtain ⟨coroutines, jobs, service, heq, -⟩ := st.perform_app i answer a
  rw [heq]
  exact if_neg ha

theorem perform_engine (st : App) (i : ℕ) (answer : Bool) (a : Act) :
    (st.perform i answer a).1.engine =
      if a = .startSocks5Server then true
      else if a = .stopSocks5Server then false
      else st.engine := by
  obtain ⟨coroutines, jobs, service, heq, -⟩ := st.perform_app i answer a
  rw [heq]

theorem perform_flag (st : App) (i : ℕ) (answer : Bool) (a : Act) (j : ℕ) (f : Flag) :
    ((st.perform i answer a).1.services j).flag f =
      if j = i ∧ a = .write f true then true
      else if j = i ∧ a = .write f false then false
      else (st.services j).flag f := by
  obtain ⟨coroutines, jobs, service, heq, hflag, -⟩ := st.perform_app i answer a
  rw [heq]
  by_cases hj : j = i
  · subst hj
    simp [hflag]
  · simp [hj]

theorem perform_scopeCancelled (st : App) (i : ℕ) (answer : Bool) (a : Act) (j : ℕ) :
    ((st.perform i answer a).1.services j).scopeCancelled =
      if j = i ∧ a = .cancelScope then true else (st.services j).scopeCancelled := by
  obtain ⟨coroutines, jobs, service, heq, -, hscope, -⟩ := st.perform_app i answer a
  rw [heq]
  by_cases hj : j = i
  · subst hj
    simp [hscope]
  · simp [hj]

theorem perform_selfStopped (st : App) (i : ℕ) (answer : Bool) (a : Act) (j : ℕ) :
    ((st.perform i answer a).1.services j).selfStopped =
      if j = i ∧ a = .stopSelf then true else (st.services j).selfStopped := by
  obtain ⟨coroutines, jobs, service, heq, -, -, hself⟩ := st.perform_app i answer a
  rw [heq]
  by_cases hj : j = i
  · subst hj
    simp [hself]
  · simp [hj]

/-! ### The coroutines -/

/-- The coroutine has been launched by this action of the service. -/
structure Fresh (st : App) (i : ℕ) (a : Act) (t : LaunchedCoroutine) : Prop where
  service : t.service = i
  cancelled : t.cancelled = false
  scope : (st.services i).scopeCancelled = false
  code : ∃ c : Coroutine, t.code = .act .suspend (fun _ => c.body) ∧
    (t.job = none ∧ a = .launch c ∨
      t.job ≠ none ∧ a = .launchLoops ∧ (c = .healthCheck 0 ∨ c = .watchdog))

/-- The coroutines after an action: those of before in their places, some of them cancelled, and
behind them those that the action has launched. -/
theorem perform_coroutines (st : App) (i : ℕ) (answer : Bool) (a : Act) :
    ∃ (p : LaunchedCoroutine → Bool) (new : List LaunchedCoroutine),
      (st.perform i answer a).1.coroutines =
          st.coroutines.map (fun t => if p t then { t with cancelled := true } else t) ++ new ∧
        (∀ t, p t = true → t.job = none → a = .cancelScope) ∧ ∀ t ∈ new, Fresh st i a t := by
  have hsame : st.coroutines =
      st.coroutines.map (fun t => if false then { t with cancelled := true } else t) ++ [] := by
    simp
  cases a with
  | launch c =>
      by_cases hscope : (st.services i).scopeCancelled = true
      · exact ⟨fun _ => false, [], by simp [perform, launch, hscope], (by rintro _ ⟨⟩),
          (by rintro _ ⟨⟩)⟩
      · refine ⟨fun _ => false, [⟨i, none, false, .act .suspend fun _ => c.body⟩],
          by simp [perform, launch, hscope], (by rintro _ ⟨⟩), fun t ht => ?_⟩
        obtain rfl := List.mem_singleton.mp ht
        exact ⟨rfl, rfl, by simpa using hscope, c, rfl, .inl ⟨rfl, rfl⟩⟩
  | launchLoops =>
      by_cases hscope : (st.services i).scopeCancelled = true
      · exact ⟨fun _ => false, [], by simp [perform, launch, update, hscope], (by rintro _ ⟨⟩),
          (by rintro _ ⟨⟩)⟩
      · refine ⟨fun _ => false,
          [⟨i, some st.jobs, false, .act .suspend fun _ => (Coroutine.healthCheck 0).body⟩,
            ⟨i, some st.jobs, false, .act .suspend fun _ => Coroutine.watchdog.body⟩],
          by simp [perform, launch, update, hscope], (by rintro _ ⟨⟩), fun t ht => ?_⟩
        have hopen : (st.services i).scopeCancelled = false := by simpa using hscope
        rcases List.mem_pair.mp ht with rfl | rfl
        · exact ⟨rfl, rfl, hopen, _, rfl, .inr ⟨(by rintro ⟨⟩), rfl, .inl rfl⟩⟩
        · exact ⟨rfl, rfl, hopen, _, rfl, .inr ⟨(by rintro ⟨⟩), rfl, .inr rfl⟩⟩
  | cancelLoops =>
      cases hjob : (st.services i).loopsJob with
      | none =>
          exact ⟨fun _ => false, [], by simp [perform, hjob], (by rintro _ ⟨⟩), (by rintro _ ⟨⟩)⟩
      | some j =>
          refine ⟨fun t => t.job == some j, [], by simp [perform, hjob, cancel], ?_,
            (by rintro _ ⟨⟩)⟩
          intro t ht hnone
          have hjob' : (t.job == some j) = true := ht
          rw [hnone] at hjob'
          cases hjob'
  | cancelScope =>
      exact ⟨fun t => t.service == i, [], by simp [perform, cancel], fun _ _ _ => rfl,
        (by rintro _ ⟨⟩)⟩
  | _ => exact ⟨fun _ => false, [], hsame, (by rintro _ ⟨⟩), (by rintro _ ⟨⟩)⟩

/-- After an action `a` for the service `i` the coroutines of before are in their places, with the
code that `code` says, and the others are new. -/
structure Evolves (st st' : App) (i : ℕ) (a : Act)
    (code : ℕ → LaunchedCoroutine → Process Act Unit) : Prop where
  kept : ∀ (j : ℕ) (t : LaunchedCoroutine), st.coroutines[j]? = some t →
    ∃ t', st'.coroutines[j]? = some t' ∧ t'.service = t.service ∧ t'.job = t.job ∧
      t'.code = code j t ∧
      (t.cancelled = false → t.job = none → a ≠ .cancelScope → t'.cancelled = false)
  origin : ∀ (j : ℕ) (t' : LaunchedCoroutine), st'.coroutines[j]? = some t' →
    (∃ t, st.coroutines[j]? = some t) ∨ Fresh st i a t'

theorem evolves_perform (st : App) (i : ℕ) (answer : Bool) (a : Act) :
    Evolves st (st.perform i answer a).1 i a fun _ t => t.code := by
  obtain ⟨p, new, hcoroutines, hcancel, hnew⟩ := perform_coroutines st i answer a
  constructor
  · intro j t hj
    have hlt : j < st.coroutines.length := (List.getElem?_eq_some_iff.mp hj).1
    refine ⟨if p t then { t with cancelled := true } else t, ?_, ?_, ?_, ?_, ?_⟩
    · rw [hcoroutines, List.getElem?_append_left (by simpa using hlt), List.getElem?_map, hj]
      rfl
    · split <;> rfl
    · split <;> rfl
    · split <;> rfl
    · intro hopen hjob ha
      split
      · exact absurd (hcancel t ‹_› hjob) ha
      · exact hopen
  · intro j t' hj
    rw [hcoroutines] at hj
    by_cases hlt : j < st.coroutines.length
    · exact .inl ⟨_, List.getElem?_eq_getElem hlt⟩
    · rw [List.getElem?_append_right (by simpa using hlt)] at hj
      exact .inr (hnew _ (List.mem_of_getElem? hj))

theorem Evolves.cases {code : ℕ → LaunchedCoroutine → Process Act Unit}
    (h : Evolves st st' i a code) {t' : LaunchedCoroutine} (ht' : t' ∈ st'.coroutines) :
    (∃ j t, st.coroutines[j]? = some t ∧ t'.service = t.service ∧ t'.job = t.job ∧
      t'.code = code j t) ∨ Fresh st i a t' := by
  obtain ⟨j, hj⟩ := List.mem_iff_getElem?.mp ht'
  rcases h.origin j t' hj with ⟨t, ht⟩ | hfresh
  · obtain ⟨t'', ht'', hservice, hjob, hcode, -⟩ := h.kept j t ht
    obtain rfl := Option.some.inj (hj.symm.trans ht'')
    exact .inl ⟨j, t, ht, hservice, hjob, hcode⟩
  · exact .inr hfresh

/-! ### The steps -/

theorem main_cases (h : appStep st .main = some st') : ∃ a next i, st.main = .act a next ∧
    st.current = some i ∧
    st' = { (st.perform i true a).1 with main := next (st.perform i true a).2 } := by
  simp only [appStep] at h
  split at h
  · rename_i a next i hmain hcurrent
    exact ⟨a, next, i, hmain, hcurrent, (Option.some.inj h).symm⟩
  · cases h

theorem coroutine_cases {k : ℕ} (h : appStep st (.coroutine k answer) = some st') :
    ∃ t a next, st.coroutines[k]? = some t ∧ t.code = .act a next ∧
      impossible t answer a = false ∧
      st' = { (st.perform t.service answer a).1 with
        coroutines := (st.perform t.service answer a).1.coroutines.modify k fun t' =>
          { t' with code := resume t.cancelled next (st.perform t.service answer a).2 a } } := by
  simp only [appStep] at h
  split at h
  · cases h
  · rename_i t ht
    split at h
    · cases h
    · rename_i a next hcode
      split at h
      · cases h
      · rename_i hpossible
        exact ⟨t, a, next, ht, hcode, by simpa using hpossible, (Option.some.inj h).symm⟩

theorem evolves_coroutine {k : ℕ} {t : LaunchedCoroutine} (ht : st.coroutines[k]? = some t)
    (answer : Bool) (a : Act) (p : Process Act Unit)
    (h : st' = { (st.perform t.service answer a).1 with
      coroutines := (st.perform t.service answer a).1.coroutines.modify k fun t' =>
        { t' with code := p } }) :
    Evolves st st' t.service a fun j t' => if j = k then p else t'.code := by
  obtain ⟨hkept, horigin⟩ := evolves_perform st t.service answer a
  subst h
  constructor
  · intro j t₀ hj
    obtain ⟨t', ht', hservice, hjob, hcode, hopen⟩ := hkept j t₀ hj
    by_cases hjk : j = k
    · subst hjk
      exact ⟨{ t' with code := p }, by simp [ht'], hservice, hjob, by simp, hopen⟩
    · refine ⟨t', ?_, hservice, hjob, by simp [hjk, hcode], hopen⟩
      simp [ht', Ne.symm hjk]
  · intro j t' hj
    by_cases hjk : j = k
    · exact .inl ⟨t, hjk ▸ ht⟩
    · have hsame : (st.perform t.service answer a).1.coroutines[j]? = some t' := by
        simpa [List.getElem?_modify, Ne.symm hjk] using hj
      exact horigin j t' hsame

end App

end FiveGProxy
