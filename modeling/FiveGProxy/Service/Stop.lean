import FiveGProxy.Service.Turns

/-!
# A stop is not undone

After the last intent was a stop, whatever starts the engine reads `stopRequested` afterwards and
stops it again (`orderly`). The stop itself launches a coroutine that stops the engine, or leaves it
to `onDestroy` (`Justified`).
-/

namespace FiveGProxy

open Steps Service Process

/-! ### What the code comes to -/

def told : Act → Bool → Bool
  | .read .stopRequested, answer => answer
  | _, _ => true

def waits : Act → Bool
  | .suspend | .again _ => true
  | _ => false

def stopsEngine : Act → Bool
  | .stopSocks5Server => true
  | _ => false

def cancelsScope : Act → Bool
  | .cancelScope => true
  | _ => false

def clearsStop : Act → Bool
  | .write .stopRequested false => true
  | _ => false

def requestsStop : Act → Bool
  | .write .stopRequested true => true
  | _ => false

/-- The code stops the engine before it waits for anything, if a stop was requested. -/
def cleans (p : Process Act Unit) : Bool := p.inevitable told waits stopsEngine

/-- The code starts the engine only to look at `stopRequested` then, and leaves the flag and the
scope alone. -/
def orderly : Process Act Unit → Bool := everywhere fun p =>
  match p with
  | .act .startSocks5Server next => cleans (next true)
  | .act (.write .stopRequested _) _ => false
  | .act .cancelScope _ => false
  | _ => true

theorem orderly_body (c : Coroutine) : orderly c.body = true := by
  cases c with
  | healthCheck n =>
      by_cases hlast : 3 ≤ n + 1
      · simp only [Coroutine.body, if_pos hlast]
        rfl
      · simp only [Coroutine.body, if_neg hlast]
        rfl
  | _ => rfl

def Service.Coroutine.isLoop : Coroutine → Bool
  | .healthCheck _ | .watchdog => true
  | _ => false

def strays : Act → Bool
  | .stopSocks5Server => true
  | .again c => !c.isLoop
  | _ => false

theorem strays_body {c : Coroutine} (hc : c.isLoop = true) : c.body.occurs strays = false := by
  cases c with
  | healthCheck n =>
      by_cases hlast : 3 ≤ n + 1
      · simp only [Coroutine.body, if_pos hlast]
        rfl
      · simp only [Coroutine.body, if_neg hlast]
        rfl
  | watchdog => rfl
  | _ => cases hc

def settlesStop : Act → Bool
  | .stopSocks5Server | .stopSelf | .launch .stopProxy => true
  | _ => false

def settles (p : Process Act Unit) : Bool :=
  p.inevitable (fun _ _ => true) (fun _ => false) settlesStop

/-- The main thread does not cancel the scope after it has left the stop to others. -/
def quits : Process Act Unit → Bool := everywhere fun p =>
  match p with
  | .act .stopSelf next => !(next true).occurs cancelsScope
  | .act (.launch .stopProxy) next => !(next true).occurs cancelsScope
  | _ => true

/-- The code of the coroutine of `stopProxy` that waits for a thread. -/
def awaitsCleanup : Process Act Unit → Bool
  | .act .suspend next => cleans (next true)
  | _ => false

theorem orderly_resume {a : Act} {next : Bool → Process Act Unit}
    (h : orderly (.act a next) = true) (cancelled answer : Bool) :
    orderly (App.resume cancelled next answer a) = true := by
  have hnext := everywhere_next h answer
  cases a with
  | suspend =>
      rw [App.resume]
      split
      · rfl
      · exact hnext
  | again c => exact orderly_body c
  | _ => exact hnext

theorem strays_resume {a : Act} {next : Bool → Process Act Unit}
    (h : (Process.act a next).occurs strays = false) (cancelled answer : Bool) :
    (App.resume cancelled next answer a).occurs strays = false := by
  have hnext := not_occurs_next h answer
  cases a with
  | suspend =>
      rw [App.resume]
      split
      · rfl
      · exact hnext
  | again c =>
      have hc : c.isLoop = true := by simpa [strays] using not_occurs_here h
      exact strays_body hc
  | _ => exact hnext

theorem cleans_not_loop {p : Process Act Unit} (h : cleans p = true) : p.occurs strays = true := by
  have hoccurs : p.occurs stopsEngine = true := by
    refine occurs_of_inevitable (fun a => ⟨true, ?_⟩) h
    cases a with
    | read f => cases f <;> rfl
    | _ => rfl
  refine occurs_mono (fun a ha => ?_) hoccurs
  cases a with
  | stopSocks5Server => rfl
  | _ => cases ha

namespace App

variable {st st' : App}

/-! ### What holds at all times -/

/-- The coroutines of a destroyed service belong to a cancelled scope and read that a stop was
requested; the main thread destroys only a service that reads it. -/
structure Lawful (st : App) : Prop where
  orderly : ∀ t ∈ st.coroutines, orderly t.code = true
  loops : ∀ t ∈ st.coroutines, t.job ≠ none → t.code.occurs strays = false
  owned : ∀ t ∈ st.coroutines, t.service < st.created
  current : ∀ i, st.current = some i →
    i < st.created ∧ (st.services i).scopeCancelled = false
  gone : ∀ t ∈ st.coroutines, st.current ≠ some t.service →
    (st.services t.service).scopeCancelled = true ∧
      (st.services t.service).flag .stopRequested = true
  main : st.main.occurs (· == .startSocks5Server) = false
  quits : quits st.main = true
  destroying : st.main.occurs cancelsScope = true → st.main.occurs clearsStop = false ∧
    ∀ i, st.current = some i → (st.services i).flag .stopRequested = true ∨
      st.main.inevitable (fun _ _ => true) cancelsScope requestsStop = true

theorem Lawful.init : Lawful App.init where
  orderly := nofun
  loops := nofun
  owned := nofun
  current := nofun
  gone := nofun
  main := rfl
  quits := rfl
  destroying := nofun

theorem Lawful.begin (h : Lawful st) {p : Process Act Unit}
    (hmain : p.occurs (· == .startSocks5Server) = false) (hquits : FiveGProxy.quits p = true)
    (hdestroying : p.occurs cancelsScope = true → p.occurs clearsStop = false ∧
      p.inevitable (fun _ _ => true) cancelsScope requestsStop = true) (c : Option Intent) :
    Lawful { st with main := p, command := c } where
  orderly := h.orderly
  loops := h.loops
  owned := h.owned
  current := h.current
  gone := h.gone
  main := hmain
  quits := hquits
  destroying hp := ⟨(hdestroying hp).1, fun _ _ => .inr (hdestroying hp).2⟩

theorem Lawful.deliver (h : Lawful st) (hmain : st.main.ended = true) : Lawful st.deliver := by
  unfold App.deliver
  split
  · exact h
  · rename_i hnone
    have hnew : ∀ t ∈ st.coroutines, t.service ≠ st.created := fun t ht =>
      Nat.ne_of_lt (h.owned t ht)
    refine ⟨h.orderly, h.loops, fun t ht => Nat.lt_succ_of_lt (h.owned t ht), ?_, ?_, h.main,
      h.quits, ?_⟩
    · rintro i ⟨⟩
      exact ⟨Nat.lt_succ_self _, by simp [ProxyService.new]⟩
    · intro t ht _
      have hsame : Function.update st.services st.created ProxyService.new t.service =
          st.services t.service := Function.update_of_ne (hnew t ht) _ _
      change (Function.update st.services st.created ProxyService.new t.service).scopeCancelled =
          true ∧ (Function.update st.services st.created ProxyService.new t.service).flag _ = true
      rw [hsame]
      exact h.gone t ht (by simp [hnone])
    · intro hp
      cases hcode : st.main with
      | pure u =>
          rw [hcode] at hp
          cases hp
      | act a next =>
          rw [hcode] at hmain
          cases hmain

theorem Fresh.orderly {i : ℕ} {a : Act} {t : LaunchedCoroutine} (h : Fresh st i a t) :
    orderly t.code = true := by
  obtain ⟨c, hcode, -⟩ := h.code
  have hbody := orderly_body c
  rw [hcode]
  unfold FiveGProxy.orderly at hbody ⊢
  rw [everywhere, hbody]
  rfl

theorem Fresh.loops {i : ℕ} {a : Act} {t : LaunchedCoroutine} (h : Fresh st i a t)
    (hjob : t.job ≠ none) : t.code.occurs strays = false := by
  obtain ⟨c, hcode, ⟨hnone, -⟩ | ⟨-, -, hc⟩⟩ := h.code
  · exact absurd hnone hjob
  · have hbody : c.body.occurs strays = false := strays_body (by rcases hc with rfl | rfl <;> rfl)
    rw [hcode, Process.occurs, hbody]
    rfl

/-- The coroutines after an action that leaves the rest of their code lawful. -/
theorem Lawful.evolve (h : Lawful st) {i : ℕ} {a : Act}
    {code : ℕ → LaunchedCoroutine → Process Act Unit} (hevolves : Evolves st st' i a code)
    (hi : i < st.created)
    (hcode : ∀ j t, st.coroutines[j]? = some t →
      FiveGProxy.orderly (code j t) = true ∧ (t.job ≠ none → (code j t).occurs strays = false)) :
    ∀ t' ∈ st'.coroutines, FiveGProxy.orderly t'.code = true ∧
      (t'.job ≠ none → t'.code.occurs strays = false) ∧ t'.service < st.created := by
  intro t' ht'
  rcases hevolves.cases ht' with ⟨j, t, ht, hservice, hjob, hcode'⟩ | hfresh
  · rw [hcode', hservice, hjob]
    exact ⟨(hcode j t ht).1, (hcode j t ht).2, h.owned t (List.mem_of_getElem? ht)⟩
  · exact ⟨hfresh.orderly, hfresh.loops, hfresh.service ▸ hi⟩

theorem Lawful.step_main (h : Lawful st) (hstep : appStep st .main = some st') : Lawful st' := by
  obtain ⟨a, next, i, hmain, hcurrent, rfl⟩ := main_cases hstep
  have hevolves := evolves_perform st i true a
  have hstart := h.main
  have hquits := h.quits
  have hdestroying := h.destroying
  rw [hmain] at hstart hquits hdestroying
  -- a service is destroyed when it reads that a stop was requested
  have hstop : a = .cancelScope → (st.services i).flag .stopRequested = true := by
    rintro rfl
    rcases (hdestroying (by rw [Process.occurs]; rfl)).2 i hcurrent with hflag | hinevitable
    · exact hflag
    · rcases inevitable_cases hinevitable with hQ | ⟨hbars, -⟩
      · cases hQ
      · cases hbars
  have hcurrent' : ∀ j, (st.perform i true a).1.current = some j → j = i ∧ a ≠ .cancelScope := by
    intro j hj
    by_cases ha : a = .cancelScope
    · subst ha
      cases hj
    · rw [perform_current _ _ _ ha, hcurrent] at hj
      exact ⟨(Option.some.inj hj).symm, ha⟩
  have hcoroutines := h.evolve hevolves (h.current i hcurrent).1 fun j t ht =>
    ⟨h.orderly t (List.mem_of_getElem? ht), h.loops t (List.mem_of_getElem? ht)⟩
  refine ⟨fun t ht => (hcoroutines t ht).1, fun t ht => (hcoroutines t ht).2.1, fun t ht => ?_,
    fun j hj => ?_, fun t' ht' hgone => ?_, not_occurs_next hstart _, everywhere_next hquits _,
    fun hp => ?_⟩
  · rw [perform_created]
    exact (hcoroutines t ht).2.2
  · obtain ⟨rfl, ha⟩ := hcurrent' j hj
    rw [perform_created, perform_scopeCancelled, if_neg fun h => ha h.2]
    exact h.current j hcurrent
  · change (st.perform i true a).1.current ≠ _ at hgone
    change ((st.perform i true a).1.services _).scopeCancelled = true ∧
      ((st.perform i true a).1.services _).flag _ = true
    rcases hevolves.cases ht' with ⟨j, t, ht, hservice, -⟩ | hfresh
    · rw [hservice] at hgone ⊢
      rw [perform_scopeCancelled, perform_flag]
      by_cases hi : t.service = i
      · have ha : a = .cancelScope := by
          by_contra ha
          rw [perform_current _ _ _ ha, hcurrent, hi] at hgone
          exact hgone rfl
        subst ha
        rw [if_pos ⟨hi, rfl⟩, hi]
        simp [hstop rfl]
      · rw [if_neg fun h => hi h.1, if_neg fun h => hi h.1, if_neg fun h => hi h.1]
        exact h.gone t (List.mem_of_getElem? ht) (by simp [hcurrent, Ne.symm hi])
    · have ha : a ≠ .cancelScope := by
        rintro rfl
        obtain ⟨c, -, ⟨-, hlaunch⟩ | ⟨-, hlaunch, -⟩⟩ := hfresh.code <;> cases hlaunch
      rw [perform_current _ _ _ ha, hcurrent, hfresh.service] at hgone
      exact absurd rfl hgone
  · obtain ⟨hclears, hflag⟩ := hdestroying (occurs_of_next hp)
    refine ⟨not_occurs_next hclears _, fun j hj => ?_⟩
    obtain ⟨rfl, ha⟩ := hcurrent' j hj
    have hkeeps : a ≠ .write .stopRequested false := by
      rintro rfl
      exact absurd (not_occurs_here hclears) (by decide)
    change ((st.perform j true a).1.services j).flag _ = true ∨ _
    rw [perform_flag]
    rcases hflag j hcurrent with hflag | hinevitable
    · left
      split
      · rfl
      · rw [if_neg fun h => hkeeps h.2]
        exact hflag
    · rcases inevitable_cases hinevitable with hQ | ⟨-, hnext⟩
      · have ha : a = .write .stopRequested true := by
          unfold requestsStop at hQ
          split at hQ
          · rfl
          · cases hQ
        rw [if_pos ⟨rfl, ha⟩]
        exact .inl rfl
      · exact .inr (hnext _ rfl)

/-- A coroutine never touches `stopRequested` and the scope. -/
theorem Lawful.harmless (h : Lawful st) {k : ℕ} {t : LaunchedCoroutine}
    (ht : st.coroutines[k]? = some t) {a : Act} {next : Bool → Process Act Unit}
    (hcode : t.code = .act a next) : (∀ value, a ≠ .write .stopRequested value) ∧
      a ≠ .cancelScope := by
  have horderly := h.orderly t (List.mem_of_getElem? ht)
  rw [hcode] at horderly
  have hhere := everywhere_here horderly
  constructor
  · rintro value rfl
    cases hhere
  · rintro rfl
    cases hhere

/-- The action `a` of the coroutine with the index `k`. -/
structure CoroutineStep (st st' : App) (k : ℕ) (answer : Bool) (t : LaunchedCoroutine) (a : Act)
    (next : Bool → Process Act Unit) : Prop where
  found : st.coroutines[k]? = some t
  code : t.code = .act a next
  possible : impossible t answer a = false
  evolves : Evolves st st' t.service a fun j t' =>
    if j = k then resume t.cancelled next (st.perform t.service answer a).2 a else t'.code
  coroutines : st'.coroutines = (st.perform t.service answer a).1.coroutines.modify k fun t' =>
    { t' with code := resume t.cancelled next (st.perform t.service answer a).2 a }
  engine : st'.engine = (st.perform t.service answer a).1.engine
  services : st'.services = (st.perform t.service answer a).1.services
  current : st'.current = st.current
  main : st'.main = st.main
  created : st'.created = st.created
  command : st'.command = st.command
  requested : ∀ j,
    (st'.services j).flag .stopRequested = (st.services j).flag .stopRequested
  scopes : ∀ j, (st'.services j).scopeCancelled = (st.services j).scopeCancelled

theorem Lawful.coroutineStep (h : Lawful st) {k : ℕ} {answer : Bool}
    (hstep : appStep st (.coroutine k answer) = some st') :
    ∃ t a next, CoroutineStep st st' k answer t a next := by
  obtain ⟨t, a, next, ht, hcode, hpossible, hst'⟩ := coroutine_cases hstep
  obtain ⟨hflag, hscope⟩ := h.harmless ht hcode
  have hservices : st'.services = (st.perform t.service answer a).1.services := by rw [hst']
  refine ⟨t, a, next, ht, hcode, hpossible, evolves_coroutine ht answer a _ hst', by rw [hst'],
    by rw [hst'], hservices, ?_, ?_, ?_, ?_, fun j => ?_, fun j => ?_⟩
  · rw [hst']
    exact perform_current _ _ _ hscope
  · rw [hst']
    exact perform_main ..
  · rw [hst']
    exact perform_created ..
  · rw [hst']
    exact perform_command ..
  · rw [hservices, perform_flag, if_neg fun h => hflag _ h.2, if_neg fun h => hflag _ h.2]
  · rw [hservices, perform_scopeCancelled, if_neg fun h => hscope h.2]

theorem CoroutineStep.fresh {k : ℕ} {answer : Bool} {t t' : LaunchedCoroutine} {a : Act}
    {next : Bool → Process Act Unit} (hstep : CoroutineStep st st' k answer t a next)
    (h : Lawful st) (hfresh : Fresh st t.service a t') : st.current = some t'.service := by
  by_contra hgone
  rw [hfresh.service] at hgone
  have hcancelled := (h.gone t (List.mem_of_getElem? hstep.found) hgone).1
  rw [hfresh.scope] at hcancelled
  cases hcancelled

theorem Lawful.step_coroutine (h : Lawful st) {k : ℕ} {answer : Bool}
    (hstep : appStep st (.coroutine k answer) = some st') : Lawful st' := by
  obtain ⟨t, a, next, hturn⟩ := h.coroutineStep hstep
  have hmem := List.mem_of_getElem? hturn.found
  have hcoroutines := h.evolve hturn.evolves (h.owned t hmem) fun j t₀ hj => by
    split
    · have horderly := h.orderly t hmem
      rw [hturn.code] at horderly
      refine ⟨orderly_resume horderly _ _, fun hjob => strays_resume ?_ _ _⟩
      obtain rfl := Option.some.inj (hj.symm.trans (‹j = k› ▸ hturn.found))
      exact hturn.code ▸ h.loops _ hmem hjob
    · exact ⟨h.orderly t₀ (List.mem_of_getElem? hj), h.loops t₀ (List.mem_of_getElem? hj)⟩
  refine ⟨fun t ht => (hcoroutines t ht).1, fun t ht => (hcoroutines t ht).2.1, fun t ht => ?_,
    fun j hj => ?_, fun t' ht' hgone => ?_, by rw [hturn.main]; exact h.main,
    by rw [hturn.main]; exact h.quits, ?_⟩
  · rw [hturn.created]
    exact (hcoroutines t ht).2.2
  · rw [hturn.current] at hj
    rw [hturn.created, hturn.scopes]
    exact h.current j hj
  · rw [hturn.current] at hgone
    rw [hturn.scopes, hturn.requested]
    rcases hturn.evolves.cases ht' with ⟨j, t₀, ht₀, hservice, -⟩ | hfresh
    · rw [hservice] at hgone ⊢
      exact h.gone t₀ (List.mem_of_getElem? ht₀) hgone
    · exact absurd (hturn.fresh h hfresh) hgone
  · rw [hturn.main, hturn.current]
    simp only [hturn.requested]
    exact h.destroying

theorem Lawful.step (h : Lawful st) {ev : AppEvent} (hstep : appStep st ev = some st') :
    Lawful st' := by
  cases ev with
  | intent c =>
      simp only [appStep] at hstep
      split at hstep
      · obtain rfl := Option.some.inj hstep
        refine (h.deliver ‹_›).begin ?_ ?_ ?_ _ <;> cases c <;> first | rfl | rintro ⟨⟩
      · cases hstep
  | destroy =>
      simp only [appStep] at hstep
      split at hstep
      · cases hstep
      · split at hstep
        · obtain rfl := Option.some.inj hstep
          exact h.begin rfl rfl (fun _ => ⟨rfl, rfl⟩) _
        · cases hstep
  | main => exact h.step_main hstep
  | coroutine k answer => exact h.step_coroutine hstep

theorem Lawful.run {evs : List AppEvent} (hrun : run appStep App.init evs = some st) :
    Lawful st :=
  run_invariant (fun _ _ _ h hstep => h.step hstep) Lawful.init hrun

/-! ### After a stop -/

theorem cleans_resume {a : Act} {next : Bool → Process Act Unit}
    (h : cleans (.act a next) = true) (ha : a ≠ .stopSocks5Server) (cancelled : Bool)
    {answer : Bool} (htold : a = .read .stopRequested → answer = true) :
    cleans (resume cancelled next answer a) = true := by
  rcases inevitable_cases h with hQ | ⟨hwaits, hnext⟩
  · cases a with
    | stopSocks5Server => exact absurd rfl ha
    | _ => cases hQ
  · cases a with
    | suspend | again c => cases hwaits
    | read f => cases f <;> exact hnext answer (by first | rfl | exact htold rfl)
    | _ => exact hnext answer rfl

def Cleaning (st : App) : Prop :=
  ∃ t ∈ st.coroutines, (st.services t.service).flag .stopRequested = true ∧ cleans t.code = true

section

variable {k : ℕ} {answer : Bool} {t : LaunchedCoroutine} {a : Act}
  {next : Bool → Process Act Unit}

/-- The coroutine is still at it after a step, or has stopped the engine. -/
theorem CoroutineStep.cleaning (hturn : CoroutineStep st st' k answer t a next)
    (hcleaning : Cleaning st) (hengine : st'.engine = true) : Cleaning st' := by
  obtain ⟨t₁, ht₁, hstop₁, hcode₁⟩ := hcleaning
  have hnostop : a ≠ .stopSocks5Server := by
    rintro rfl
    rw [hturn.engine] at hengine
    cases hengine
  obtain ⟨j, hj⟩ := List.mem_iff_getElem?.mp ht₁
  obtain ⟨t', ht', hservice, -, hcode', -⟩ := hturn.evolves.kept j t₁ hj
  refine ⟨t', List.mem_of_getElem? ht', by rw [hservice, hturn.requested, hstop₁], ?_⟩
  rw [hcode']
  split
  · obtain rfl : t = t₁ := Option.some.inj (hturn.found.symm.trans (‹j = k› ▸ hj))
    refine cleans_resume (hturn.code ▸ hcode₁) hnostop _ ?_
    rintro rfl
    exact hstop₁
  · exact hcode₁

/-- A coroutine that has just started the engine looks at `stopRequested` next. -/
theorem CoroutineStep.started (hturn : CoroutineStep st st' k answer t a next) (h : Lawful st)
    (hoff : st.engine = false) (hengine : st'.engine = true) :
    ∃ t', st'.coroutines[k]? = some t' ∧ t'.service = t.service ∧ cleans t'.code = true := by
  rw [hturn.engine, perform_engine, hoff] at hengine
  have hstart : a = .startSocks5Server := by
    by_contra hne
    rw [if_neg hne] at hengine
    split at hengine <;> cases hengine
  subst hstart
  obtain ⟨t', ht', hservice, -, hcode', -⟩ := hturn.evolves.kept k t hturn.found
  refine ⟨t', ht', hservice, ?_⟩
  have horderly := everywhere_here (hturn.code ▸ h.orderly t (List.mem_of_getElem? hturn.found))
  rw [hcode', if_pos rfl]
  change cleans (next !st.engine) = true
  rw [hoff]
  exact horderly

end

/-- Something will stop the engine. -/
inductive Justified (st : App) : Prop
  /-- A coroutine that has just started it. -/
  | cleaning (h : Cleaning st)
  /-- The main thread, or what it is about to leave behind. -/
  | settling (hmain : settles st.main = true)
  /-- `onDestroy`. -/
  | doomed (i : ℕ) (hcurrent : st.current = some i) (hmain : st.main.occurs cancelsScope = false)
      (hself : (st.services i).selfStopped = true)
  /-- The coroutine of `stopProxy`. -/
  | cleanup (i : ℕ) (hcurrent : st.current = some i) (hmain : st.main.occurs cancelsScope = false)
      (t : LaunchedCoroutine) (ht : t ∈ st.coroutines) (hservice : t.service = i)
      (hjob : t.job = none) (hcancelled : t.cancelled = false)
      (hcode : awaitsCleanup t.code = true)

/-- The last intent was a stop. -/
structure Stopping (st : App) : Prop where
  clears : st.main.occurs clearsStop = false
  requested : ∀ i, st.current = some i → (st.services i).flag .stopRequested = true ∨
    settles st.main = true ∧
      st.main.inevitable (fun _ _ => true) settlesStop requestsStop = true
  justified : st.engine = true → Justified st

/-- A coroutine that stops the engine if it reads that a stop was requested. -/
theorem Stopping.justified_of_cleans (hstopping : Stopping st) (h : Lawful st) {k : ℕ}
    {answer : Bool} {t t' : LaunchedCoroutine} {a : Act} {next : Bool → Process Act Unit}
    (hturn : CoroutineStep st st' k answer t a next) (ht' : st'.coroutines[k]? = some t')
    (hservice : t'.service = t.service) (hcode : cleans t'.code = true) : Justified st' := by
  have hcleaning : (st.services t.service).flag .stopRequested = true → Justified st' := fun hflag =>
    .cleaning ⟨t', List.mem_of_getElem? ht', by rw [hservice, hturn.requested, hflag], hcode⟩
  by_cases hgone : st.current = some t.service
  · rcases hstopping.requested _ hgone with hflag | ⟨hsettles, -⟩
    · exact hcleaning hflag
    · exact .settling (hturn.main ▸ hsettles)
  · exact hcleaning (h.gone t (List.mem_of_getElem? hturn.found) hgone).2

theorem Stopping.step_coroutine (hstopping : Stopping st) (h : Lawful st) {k : ℕ} {answer : Bool}
    (hstep : appStep st (.coroutine k answer) = some st') : Stopping st' := by
  obtain ⟨t, a, next, hturn⟩ := h.coroutineStep hstep
  refine ⟨by rw [hturn.main]; exact hstopping.clears, ?_, fun hengine => ?_⟩
  · rw [hturn.main, hturn.current]
    simp only [hturn.requested]
    exact hstopping.requested
  cases hon : st.engine with
  | false =>
      obtain ⟨t', ht', hservice, hcode⟩ := hturn.started h hon hengine
      exact hstopping.justified_of_cleans h hturn ht' hservice hcode
  | true =>
      cases hstopping.justified hon with
      | cleaning hcleaning => exact .cleaning (hturn.cleaning hcleaning hengine)
      | settling hsettles => exact .settling (hturn.main ▸ hsettles)
      | doomed i hi hp hself =>
          refine .doomed i (hturn.current.trans hi) (hturn.main ▸ hp) ?_
          rw [hturn.services, perform_selfStopped, hself, ite_self]
      | cleanup i hi hp t₁ ht₁ hservice₁ hjob₁ hcancelled₁ hcode₁ =>
          obtain ⟨j, hj⟩ := List.mem_iff_getElem?.mp ht₁
          obtain ⟨t', ht', hservice', hjob', hcode', hopen⟩ := hturn.evolves.kept j t₁ hj
          by_cases hjk : j = k
          · subst hjk
            obtain rfl : t = t₁ := Option.some.inj (hturn.found.symm.trans hj)
            refine hstopping.justified_of_cleans h hturn ht' hservice' ?_
            rw [hcode', if_pos rfl]
            rw [hturn.code] at hcode₁
            cases a with
            | suspend =>
                rw [resume, hcancelled₁]
                exact hcode₁
            | _ => cases hcode₁
          · rw [if_neg hjk] at hcode'
            have hscope := (h.harmless hturn.found hturn.code).2
            exact .cleanup i (hturn.current.trans hi) (hturn.main ▸ hp) t'
              (List.mem_of_getElem? ht') (hservice'.trans hservice₁) (hjob'.trans hjob₁)
              (hopen hcancelled₁ hjob₁ hscope) (hcode'.symm ▸ hcode₁)

theorem Stopping.step_main (hstopping : Stopping st) (h : Lawful st)
    (hstep : appStep st .main = some st') : Stopping st' := by
  obtain ⟨a, next, i, hmain, hcurrent, rfl⟩ := main_cases hstep
  obtain ⟨hkept, -⟩ := evolves_perform st i true a
  have hclears := hstopping.clears
  have hrequested := hstopping.requested i hcurrent
  have hquits := h.quits
  have hnostart := h.main
  rw [hmain] at hclears hrequested hquits hnostart
  have hkeeps : a ≠ .write .stopRequested false := by
    rintro rfl
    exact absurd (not_occurs_here hclears) (by decide)
  have hstop : ∀ j, (st.services j).flag .stopRequested = true →
      ((st.perform i true a).1.services j).flag .stopRequested = true := by
    intro j hj
    rw [perform_flag]
    split
    · rfl
    · rw [if_neg fun h => hkeeps h.2]
      exact hj
  refine ⟨not_occurs_next hclears _, fun j hj => ?_, fun hengine => ?_⟩
  · have hj' : (st.perform i true a).1.current = some j := hj
    have ha : a ≠ .cancelScope := by
      rintro rfl
      cases hj'
    rw [perform_current _ _ _ ha, hcurrent] at hj'
    obtain rfl := Option.some.inj hj'
    rcases hrequested with hflag | ⟨hsettles, hinevitable⟩
    · exact .inl (hstop i hflag)
    · rcases inevitable_cases hinevitable with hQ | ⟨hbars, hnext⟩
      · have ha : a = .write .stopRequested true := by
          unfold requestsStop at hQ
          split at hQ
          · rfl
          · cases hQ
        left
        change ((st.perform i true a).1.services i).flag _ = true
        rw [perform_flag, if_pos ⟨rfl, ha⟩]
      · rcases inevitable_cases hsettles with hQ | ⟨-, hsettles'⟩
        · rw [hQ] at hbars
          cases hbars
        · exact .inr ⟨hsettles' _ rfl, hnext _ rfl⟩
  · have hengine' : (st.perform i true a).1.engine = true := hengine
    have hnostart' : a ≠ .startSocks5Server := by
      rintro rfl
      exact absurd (not_occurs_here hnostart) (by decide)
    have hnostop : a ≠ .stopSocks5Server := by
      rintro rfl
      cases hengine'
    rw [perform_engine, if_neg hnostart', if_neg hnostop] at hengine'
    have hself : ∀ j, (st.services j).selfStopped = true →
        ((st.perform i true a).1.services j).selfStopped = true := by
      intro j hj
      rw [perform_selfStopped]
      split
      · rfl
      · exact hj
    have hwaiting : st.main.occurs cancelsScope = false →
        (next (st.perform i true a).2).occurs cancelsScope = false ∧
          (st.perform i true a).1.current = some i ∧ a ≠ .cancelScope := by
      intro hp
      rw [hmain] at hp
      have ha : a ≠ .cancelScope := by
        rintro rfl
        exact absurd (not_occurs_here hp) (by decide)
      exact ⟨not_occurs_next hp _, (perform_current _ _ _ ha).trans hcurrent, ha⟩
    cases hstopping.justified hengine' with
    | cleaning hcleaning =>
        obtain ⟨t, ht, hflag, hcode⟩ := hcleaning
        obtain ⟨j, hj⟩ := List.mem_iff_getElem?.mp ht
        obtain ⟨t', ht', hservice, -, hcode', -⟩ := hkept j t hj
        exact .cleaning ⟨t', List.mem_of_getElem? ht', by rw [hservice]; exact hstop _ hflag,
          hcode'.symm ▸ hcode⟩
    | doomed j hj hp hselfj =>
        obtain rfl := Option.some.inj (hcurrent.symm.trans hj)
        obtain ⟨hp', hcurrent', -⟩ := hwaiting hp
        exact .doomed i hcurrent' hp' (hself i hselfj)
    | cleanup j hj hp t ht hservice hjob hcancelled hcode =>
        obtain rfl := Option.some.inj (hcurrent.symm.trans hj)
        obtain ⟨hp', hcurrent', ha⟩ := hwaiting hp
        obtain ⟨l, hl⟩ := List.mem_iff_getElem?.mp ht
        obtain ⟨t', ht', hservice', hjob', hcode', hopen⟩ := hkept l t hl
        exact .cleanup i hcurrent' hp' t' (List.mem_of_getElem? ht') (hservice'.trans hservice)
          (hjob'.trans hjob) (hopen hcancelled hjob ha) (hcode'.symm ▸ hcode)
    | settling hsettles =>
        rw [hmain] at hsettles
        rcases inevitable_cases hsettles with hQ | ⟨-, hnext⟩
        · have hquit := everywhere_here hquits
          cases a with
          | stopSocks5Server => exact absurd rfl hnostop
          | stopSelf =>
              have hp : (next true).occurs cancelsScope = false := by simpa using hquit
              refine .doomed i hcurrent hp ?_
              change ((st.perform i true .stopSelf).1.services i).selfStopped = true
              rw [perform_selfStopped, if_pos ⟨rfl, rfl⟩]
          | launch c =>
              cases c with
              | stopProxy =>
                  have hscope := (h.current i hcurrent).2
                  have hp : (next true).occurs cancelsScope = false := by simpa using hquit
                  have hne : Act.launch .stopProxy ≠ .cancelScope := by rintro ⟨⟩
                  have hcurrent' : (st.perform i true (.launch .stopProxy)).1.current = some i :=
                    (perform_current _ _ _ hne).trans hcurrent
                  refine .cleanup i hcurrent' hp
                    ⟨i, none, false, .act .suspend fun _ => Coroutine.stopProxy.body⟩ ?_ rfl rfl rfl
                    rfl
                  simp [perform, launch, hscope]
              | _ => cases hQ
          | _ => cases hQ
        · exact .settling (hnext _ rfl)

/-- What a stop brings about is in the run from the moment the intent is delivered. -/
theorem Stopping.step (h : Lawful st) (hstopping : st.command = some .stop → Stopping st)
    {ev : AppEvent} (hstep : appStep st ev = some st') (hcommand : st'.command = some .stop) :
    Stopping st' := by
  cases ev with
  | intent c =>
      simp only [appStep] at hstep
      split at hstep
      · obtain rfl := Option.some.inj hstep
        obtain rfl := Option.some.inj hcommand
        exact ⟨rfl, fun _ _ => .inr ⟨rfl, rfl⟩, fun _ => .settling rfl⟩
      · cases hstep
  | destroy =>
      simp only [appStep] at hstep
      split at hstep
      · cases hstep
      · rename_i i hcurrent
        split at hstep
        · rename_i hidle
          rw [Bool.and_eq_true] at hidle
          obtain rfl := Option.some.inj hstep
          refine ⟨rfl, fun j hj => .inl ?_, fun _ => .settling rfl⟩
          rcases (hstopping hcommand).requested j hj with hflag | ⟨hsettles, -⟩
          · exact hflag
          · rw [ended_of_inevitable hsettles] at hidle
            cases hidle.1
        · cases hstep
  | main =>
      have hsame : st.command = some .stop := by
        obtain ⟨a, next, i, -, -, rfl⟩ := main_cases hstep
        exact (perform_command ..).symm.trans hcommand
      exact (hstopping hsame).step_main h hstep
  | coroutine k answer =>
      obtain ⟨t, a, next, hturn⟩ := h.coroutineStep hstep
      exact (hstopping (hturn.command ▸ hcommand)).step_coroutine h hstep

theorem Stopping.run {evs : List AppEvent} (hrun : run appStep App.init evs = some st)
    (hcommand : st.command = some .stop) : Stopping st := by
  have hinv : Lawful st ∧ (st.command = some .stop → Stopping st) :=
    run_invariant (P := fun st => Lawful st ∧ (st.command = some .stop → Stopping st))
      (fun _ _ _ h hstep => ⟨h.1.step hstep, Stopping.step h.1 h.2 hstep⟩)
      ⟨Lawful.init, nofun⟩ hrun
  exact hinv.2 hcommand

/-- Everything that the intents have set off is over, except for the loops. -/
structure Finished (st : App) : Prop where
  main : st.main.ended = true
  coroutines : ∀ t ∈ st.coroutines, t.job = none → t.code.ended = true
  destroyed : ∀ i, st.current = some i → (st.services i).selfStopped = false

instance : Decidable (Finished st) :=
  decidable_of_iff (st.main.ended = true ∧
      (∀ t ∈ st.coroutines, t.job = none → t.code.ended = true) ∧
      ∀ i ∈ st.current, (st.services i).selfStopped = false)
    ⟨fun h => ⟨h.1, h.2.1, h.2.2⟩, fun h => ⟨h.main, h.coroutines, h.destroyed⟩⟩

theorem Stopping.engine_off (hstopping : Stopping st) (h : Lawful st) (hfinished : Finished st) :
    st.engine = false := by
  by_contra hengine
  cases hstopping.justified (by simpa using hengine) with
  | cleaning hcleaning =>
      obtain ⟨t, ht, -, hcode⟩ := hcleaning
      by_cases hjob : t.job = none
      · have hended := ended_of_inevitable hcode
        rw [hfinished.coroutines t ht hjob] at hended
        cases hended
      · have hloop := h.loops t ht hjob
        rw [cleans_not_loop hcode] at hloop
        cases hloop
  | settling hmain =>
      have hended := ended_of_inevitable hmain
      rw [hfinished.main] at hended
      cases hended
  | doomed i hcurrent _ hself =>
      rw [hfinished.destroyed i hcurrent] at hself
      cases hself
  | cleanup i hcurrent _ t ht _ hjob _ hcode =>
      have hended := hfinished.coroutines t ht hjob
      cases hp : t.code with
      | pure u =>
          rw [hp] at hcode
          cases hcode
      | act a next =>
          rw [hp] at hended
          cases hended

end App

open App

/-- In every run whose last intent is a stop, the engine is off when everything is over that the
intents have set off. -/
theorem stop_not_undone {evs : List AppEvent} {st : App}
    (hrun : run appStep App.init evs = some st) (hlast : st.command = some .stop)
    (hfinished : Finished st) : st.engine = false :=
  (Stopping.run hrun hlast).engine_off (Lawful.run hrun) hfinished

/-- A stop arrives while a restart of the watchdog has just looked at `stopRequested`. -/
def stopDuringRestart : List AppEvent :=
  List.flatten [[.intent (.start false)], List.replicate 7 .main,
    List.replicate 13 (.coroutine 0 true), List.replicate 15 (.coroutine 2 true),
    List.replicate 5 (.coroutine 3 true), [.intent .stop], List.replicate 7 .main,
    List.replicate 5 (.coroutine 3 true), List.replicate 4 (.coroutine 4 true), [.destroy],
    List.replicate 7 .main]

theorem stop_not_undone_restart : ∃ st,
    run appStep App.init stopDuringRestart = some st ∧ st.engine = false := by
  obtain ⟨st, hrun, hlast, hfinished⟩ := exists_run_of_any (by decide +kernel :
    (run appStep App.init stopDuringRestart).any (fun st =>
      decide (st.command = some .stop ∧ Finished st)) = true)
  exact ⟨st, hrun, stop_not_undone hrun hlast hfinished⟩

end FiveGProxy
