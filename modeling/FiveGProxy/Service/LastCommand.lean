import FiveGProxy.Service.Stop
import Mathlib.Tactic.IntervalCases

/-!
# The last command wins

A start in a service that has been told to stop is undone when that service is destroyed, and of two
coroutines of `startProxy` the second finds the engine running and stops it. `Uncontended` excludes both.
Then at most one coroutine at a time is `busy` with the engine, and after a start it is on its
straight course (`Started`).
-/

namespace FiveGProxy

open Steps Service Process

/-! ### The courses -/

/-- The coroutine of `startProxy` as long as nothing fails, up to the last look at `stopRequested`:
its actions and the answers. -/
def startCourse : ℕ → Act × Bool
  | 0 => (.suspend, true)
  | 1 => (.read .stopRequested, false)
  | 2 => (.write .isProxyRunning true, true)
  | 3 => (.awaitNetwork, true)
  | 4 => (.read .stopRequested, false)
  | 5 => (.question .network, true)
  | 6 => (.question .egress, true)
  | 7 => (.question .lanAddress, true)
  | 8 => (.startSocks5Server, true)
  | _ => (.read .stopRequested, false)

def startPoint (n : ℕ) : Process Act Unit :=
  (Process.act .suspend fun _ => Coroutine.startProxy.body).along (fun n => (startCourse n).2) n

/-- The coroutine of `restartProxy`, up to the launch. -/
def restartCourse : ℕ → Act × Bool
  | 0 => (.suspend, true)
  | 1 => (.write .isProxyRunning false, true)
  | 2 => (.write .proxyPaused false, true)
  | 3 => (.stopSocks5Server, true)
  | 4 => (.read .stopRequested, false)
  | 5 => (.read .isProxyRunning, false)
  | 6 => (.write .proxyPaused false, true)
  | 7 => (.write .engineStarting true, true)
  | _ => (.launch .startProxy, true)

def restartPoint (n : ℕ) : Process Act Unit :=
  (Process.act .suspend fun _ => Coroutine.restartProxy.body).along
    (fun n => (restartCourse n).2) n

def deliverCourse (autoStart : Bool) : ℕ → Act × Bool
  | 0 => (.setRetries (if autoStart then autoStartRetries else 0), true)
  | 1 => (.write .stopRequested false, true)
  | 2 => (.read .stopRequested, false)
  | 3 => (.read .isProxyRunning, false)
  | 4 => (.write .proxyPaused false, true)
  | 5 => (.write .engineStarting true, true)
  | _ => (.launch .startProxy, true)

def deliverPoint (autoStart : Bool) (n : ℕ) : Process Act Unit :=
  (onStart autoStart).along (fun n => (deliverCourse autoStart n).2) n

theorem startPoint_act {n : ℕ} (hn : n < 10) :
    ∃ next, startPoint n = .act (startCourse n).1 next := by
  interval_cases n <;> exact ⟨_, rfl⟩

theorem restartPoint_act {n : ℕ} (hn : n < 9) :
    ∃ next, restartPoint n = .act (restartCourse n).1 next := by
  interval_cases n <;> exact ⟨_, rfl⟩

theorem deliverPoint_act (autoStart : Bool) {n : ℕ} (hn : n < 7) :
    ∃ next, deliverPoint autoStart n = .act (deliverCourse autoStart n).1 next := by
  interval_cases n <;> exact ⟨_, rfl⟩

/-! ### Who deals with the engine -/

def affects : Act → Bool
  | .write .isProxyRunning _ | .startSocks5Server | .stopSocks5Server | .stopSelf
  | .launch .startProxy | .launch .stopProxy | .launch .autoStart => true
  | .again c => !c.isLoop
  | _ => false

def busy (p : Process Act Unit) : Bool := p.occurs affects

theorem busy_loop {c : Coroutine} (hc : c.isLoop = true) : busy c.body = false := by
  cases c with
  | healthCheck n =>
      by_cases hlast : 3 ≤ n + 1
      · simp only [Coroutine.body, if_pos hlast]
        rfl
      · simp only [Coroutine.body, if_neg hlast]
        rfl
  | watchdog => rfl
  | _ => cases hc

theorem busy_startPoint {n : ℕ} (hn : n < 10) : busy (startPoint n) = true := by
  interval_cases n <;> rfl

theorem busy_restartPoint {n : ℕ} (hn : n < 9) : busy (restartPoint n) = true := by
  interval_cases n <;> rfl

theorem busy_of_cleans {p : Process Act Unit} (h : cleans p = true) : busy p = true := by
  refine occurs_mono (fun a ha => ?_) (occurs_of_inevitable (fun a => ⟨true, ?_⟩) h)
  · cases a with
    | stopSocks5Server => rfl
    | _ => cases ha
  · cases a with
    | read f => cases f <;> rfl
    | _ => rfl

namespace App

variable {st st' : App}

/-- The coroutines other than the one with the index `k`. -/
def others (st : App) (k : ℕ) : List LaunchedCoroutine := st.coroutines.eraseIdx k

def launches (c : Coroutine) : Process Act Unit → Bool
  | .act (.launch c') _ => c' == c
  | _ => false

/-- What the service is about to launch does not collide with one of the other coroutines; and the
coroutine of `startProxy` is launched only if what the method has read of `isProxyRunning` is still
true. -/
def LaunchesAlone (st : App) (i : ℕ) (others : List LaunchedCoroutine) (p : Process Act Unit) :
    Prop :=
  (st.services i).scopeCancelled = false → (st.services i).flag .stopRequested = false →
    (launches .startProxy p = true → (st.services i).flag .isProxyRunning = false) ∧
      (launches .startProxy p = true ∨ launches .restartProxy p = true →
        ∀ t ∈ others, busy t.code = false)

instance (st : App) (i : ℕ) (others : List LaunchedCoroutine) (p : Process Act Unit) :
    Decidable (LaunchesAlone st i others p) :=
  inferInstanceAs (Decidable (_ → _ → _ ∧ (_ → _)))

/-- No start is handled by a service that has been told to stop, and nothing is launched that
collides with another coroutine. -/
def Uncontended (st : App) : AppEvent → Prop
  | .intent (.start _) => ∀ i ∈ st.current, (st.services i).flag .stopRequested = false
  | .main => ∀ i ∈ st.current, LaunchesAlone st i st.coroutines st.main
  | .coroutine k _ =>
      ∀ t ∈ st.coroutines[k]?, LaunchesAlone st t.service (st.others k) t.code
  | _ => True

instance (st : App) : (ev : AppEvent) → Decidable (Uncontended st ev)
  | .intent (.start _) => inferInstanceAs
      (Decidable (∀ i ∈ st.current, (st.services i).flag .stopRequested = false))
  | .main => inferInstanceAs
      (Decidable (∀ i ∈ st.current, LaunchesAlone st i st.coroutines st.main))
  | .coroutine k _ => inferInstanceAs (Decidable
      (∀ t ∈ st.coroutines[k]?, LaunchesAlone st t.service (st.others k) t.code))
  | .intent .stop | .destroy => inferInstanceAs (Decidable True)

/-- The next action is one of the questions whose other answer makes the start fail. -/
def mayFail : Process Act Unit → Bool
  | .act (.question .network) _ | .act (.question .egress) _
  | .act (.question .lanAddress) _ => true
  | _ => false

/-- The environment produces no failure: there is a network, it can be bound, and there are LAN
addresses. -/
def NoFailure (st : App) : AppEvent → Prop
  | .coroutine k answer => ∀ t ∈ st.coroutines[k]?, mayFail t.code = true → answer = true
  | _ => True

instance (st : App) : (ev : AppEvent) → Decidable (NoFailure st ev)
  | .coroutine k answer => inferInstanceAs
      (Decidable (∀ t ∈ st.coroutines[k]?, mayFail t.code = true → answer = true))
  | .intent _ | .destroy | .main => inferInstanceAs (Decidable True)

/-! ### After a start -/

def startsProxy : Act → Bool
  | .setRetries _ | .read _ | .write .stopRequested false | .write .proxyPaused _
  | .write .engineStarting _ | .launch .startProxy => true
  | _ => false

/-- The current service `i` has not been told to stop, and the main thread is idle or handles a
start. -/
structure Serving (st : App) (i : ℕ) : Prop where
  current : st.current = some i
  requested : (st.services i).flag .stopRequested = false
  selfStopped : (st.services i).selfStopped = false
  main : st.main.occurs (fun a => !startsProxy a) = false

/-- No coroutine but the one with the index `k` is busy, and that one is at this point of its
course. -/
structure AtWork (st : App) (i k : ℕ) (p : Process Act Unit) : Prop where
  found : ∃ t, st.coroutines[k]? = some t ∧ t.service = i ∧ t.job = none ∧ t.cancelled = false ∧
    t.code = p
  others : ∀ (j : ℕ) (t : LaunchedCoroutine), st.coroutines[j]? = some t → j ≠ k →
    busy t.code = false

/-- The last intent was a start. -/
inductive Started (st : App) : Prop
  /-- The main thread is about to launch the coroutine of `startProxy` in a new service. -/
  | delivering (i : ℕ) (autoStart : Bool) (n : ℕ) (hn : n < 7) (hcurrent : st.current = some i)
      (hrequested : (st.services i).flag .stopRequested = false)
      (hselfStopped : (st.services i).selfStopped = false)
      (hmain : st.main = deliverPoint autoStart n)
      (hrunning : (st.services i).flag .isProxyRunning = false)
      (hnew : ∀ t ∈ st.coroutines, t.service ≠ i) (hengine : st.engine = true → Cleaning st)
  | starting (i k n : ℕ) (hn : n < 10) (hserving : Serving st i)
      (hwork : AtWork st i k (startPoint n))
      (hrunning : (st.services i).flag .isProxyRunning = decide (3 ≤ n))
      (hengine : st.engine = decide (9 ≤ n))
  | restarting (i k n : ℕ) (hn : n < 9) (hserving : Serving st i)
      (hwork : AtWork st i k (restartPoint n))
      (hrunning : 2 ≤ n → (st.services i).flag .isProxyRunning = false)
      (hengine : 4 ≤ n → st.engine = false)
  | running (i : ℕ) (hserving : Serving st i)
      (hrunning : (st.services i).flag .isProxyRunning = true) (hengine : st.engine = true)
      (hquiet : ∀ t ∈ st.coroutines, busy t.code = false)

/-! ### A coroutine that is not busy -/

theorem idle_resume {a : Act} {next : Bool → Process Act Unit}
    (h : busy (.act a next) = false) (cancelled answer : Bool) :
    busy (resume cancelled next answer a) = false := by
  have hnext := not_occurs_next h answer
  cases a with
  | suspend =>
      rw [resume]
      split
      · rfl
      · exact hnext
  | again c =>
      have hc : c.isLoop = true := by simpa [affects] using not_occurs_here h
      exact busy_loop hc
  | _ => exact hnext

section

variable {k : ℕ} {answer : Bool} {t : LaunchedCoroutine} {a : Act}
  {next : Bool → Process Act Unit} {i : ℕ}

/-- What an action changes of the engine and of the service, if it does not affect them. -/
theorem CoroutineStep.unaffected (hturn : CoroutineStep st st' k answer t a next)
    (hidle : busy t.code = false) : st'.engine = st.engine ∧
      ∀ j, (st'.services j).flag .isProxyRunning = (st.services j).flag .isProxyRunning := by
  have ha : affects a = false := not_occurs_here (hturn.code ▸ hidle)
  have hstart : a ≠ .startSocks5Server := by rintro rfl; cases ha
  have hstop : a ≠ .stopSocks5Server := by rintro rfl; cases ha
  have hwrite : ∀ value, a ≠ .write .isProxyRunning value := by rintro value rfl; cases ha
  refine ⟨?_, fun j => ?_⟩
  · rw [hturn.engine, perform_engine, if_neg hstart, if_neg hstop]
  · rw [hturn.services, perform_flag, if_neg fun h => hwrite _ h.2, if_neg fun h => hwrite _ h.2]

/-- What is launched by an action that does not affect the engine is not busy, unless it is a
restart. -/
theorem Fresh.idle {t' : LaunchedCoroutine} (hfresh : Fresh st i a t') (ha : affects a = false) :
    busy t'.code = false ∨ a = .launch .restartProxy ∧ t'.job = none ∧
      t'.code = restartPoint 0 := by
  obtain ⟨c, hcode, ⟨hjob, rfl⟩ | ⟨-, rfl, hc⟩⟩ := hfresh.code
  · cases c with
    | restartProxy => exact .inr ⟨rfl, hjob, hcode⟩
    | healthCheck n =>
        left
        rw [hcode, busy, Process.occurs, ← busy, busy_loop rfl]
        rfl
    | watchdog =>
        rw [hcode]
        exact .inl rfl
    | _ => cases ha
  · left
    rw [hcode, busy, Process.occurs, ← busy,
      busy_loop (by rcases hc with rfl | rfl <;> rfl)]
    rfl

theorem CoroutineStep.serving (hturn : CoroutineStep st st' k answer t a next)
    (hserving : Serving st i) (hself : a ≠ .stopSelf) : Serving st' i where
  current := hturn.current.trans hserving.current
  requested := by rw [hturn.requested, hserving.requested]
  selfStopped := by
    rw [hturn.services, perform_selfStopped, if_neg fun h => hself h.2, hserving.selfStopped]
  main := by rw [hturn.main, hserving.main]

theorem CoroutineStep.serving_of_idle (hturn : CoroutineStep st st' k answer t a next)
    (hserving : Serving st i) (hidle : busy t.code = false) : Serving st' i := by
  have ha : affects a = false := not_occurs_here (hturn.code ▸ hidle)
  refine hturn.serving hserving ?_
  rintro rfl
  cases ha

theorem Serving.notGone (hserving : Serving st i) (h : Lawful st) {t : LaunchedCoroutine}
    (ht : t ∈ st.coroutines) (hscope : (st.services t.service).scopeCancelled = false) :
    t.service = i := by
  by_contra hne
  have hgone := (h.gone t ht (by simp [hserving.current, Ne.symm hne])).1
  rw [hscope] at hgone
  cases hgone

theorem AtWork.launched {p : Process Act Unit}
    (hlength : st'.coroutines.length = st.coroutines.length + 1)
    (hnew : st'.coroutines[st.coroutines.length]? = some ⟨i, none, false, p⟩)
    (hold : ∀ (j : ℕ) (t' : LaunchedCoroutine), st'.coroutines[j]? = some t' →
      j < st.coroutines.length → busy t'.code = false) :
    AtWork st' i st.coroutines.length p where
  found := ⟨_, hnew, rfl, rfl, rfl, rfl⟩
  others j t' ht' hj := by
    have hlt := (List.getElem?_eq_some_iff.mp ht').1
    exact hold j t' ht' (by omega)

theorem AtWork.step_other {p : Process Act Unit} {l : ℕ} (hwork : AtWork st i l p)
    (hbusy : busy p = true) (h : Lawful st) (hserving : Serving st i)
    (hturn : CoroutineStep st st' k answer t a next) (hcond : Uncontended st (.coroutine k answer))
    (hkl : k ≠ l) : AtWork st' i l p := by
  obtain ⟨t₁, ht₁, hservice₁, hjob₁, hcancelled₁, hcode₁⟩ := hwork.found
  have hidle := hwork.others k t hturn.found hkl
  have ha : affects a = false := not_occurs_here (hturn.code ▸ hidle)
  constructor
  · obtain ⟨t', ht', hservice, hjob, hcode, hopen⟩ := hturn.evolves.kept l t₁ ht₁
    rw [if_neg (Ne.symm hkl)] at hcode
    exact ⟨t', ht', hservice.trans hservice₁, hjob.trans hjob₁,
      hopen hcancelled₁ hjob₁ (h.harmless hturn.found hturn.code).2, hcode.trans hcode₁⟩
  · intro j t' ht' hj
    rcases hturn.evolves.origin j t' ht' with ⟨t₀, ht₀⟩ | hfresh
    · obtain ⟨t'', ht'', -, -, hcode, -⟩ := hturn.evolves.kept j t₀ ht₀
      obtain rfl := Option.some.inj (ht'.symm.trans ht'')
      rw [hcode]
      split
      · exact idle_resume (hturn.code ▸ hidle) _ _
      · exact hwork.others j t₀ ht₀ hj
    · rcases hfresh.idle ha with hidle' | ⟨rfl, -⟩
      · exact hidle'
      · have hmem := List.mem_of_getElem? hturn.found
        have hi := hserving.notGone h hmem hfresh.scope
        have hlaunch := hcond t hturn.found hfresh.scope (hi ▸ hserving.requested)
        have hothers := hlaunch.2 (.inr (by rw [hturn.code]; rfl)) t₁
          (List.mem_eraseIdx_iff_getElem?.mpr ⟨l, Ne.symm hkl, ht₁⟩)
        rw [hcode₁, hbusy] at hothers
        cases hothers

theorem AtWork.step_self {p : Process Act Unit} (hwork : AtWork st i k p) (h : Lawful st)
    (hturn : CoroutineStep st st' k answer t a next)
    (hfresh : ∀ t', ¬Fresh st t.service a t') :
    t.service = i ∧ t.cancelled = false ∧ t.code = p ∧
      AtWork st' i k (resume false next (st.perform i answer a).2 a) := by
  obtain ⟨t₁, ht₁, hservice, hjob, hcancelled, hcode⟩ := hwork.found
  obtain rfl := Option.some.inj (hturn.found.symm.trans ht₁)
  refine ⟨hservice, hcancelled, hcode, ?_, fun j t' ht' hj => ?_⟩
  · obtain ⟨t', ht', hservice', hjob', hcode', hopen⟩ := hturn.evolves.kept k t hturn.found
    rw [if_pos rfl, hcancelled, hservice] at hcode'
    exact ⟨t', ht', hservice'.trans hservice, hjob'.trans hjob,
      hopen hcancelled hjob (h.harmless hturn.found hturn.code).2, hcode'⟩
  · rcases hturn.evolves.origin j t' ht' with ⟨t₀, ht₀⟩ | hnew
    · obtain ⟨t'', ht'', -, -, hcode', -⟩ := hturn.evolves.kept j t₀ ht₀
      obtain rfl := Option.some.inj (ht'.symm.trans ht'')
      rw [hcode', if_neg hj]
      exact hwork.others j t₀ ht₀ hj
    · exact absurd hnew (hfresh t')

theorem resume_eq (ha : ∀ c, a ≠ .again c) (answer : Bool) :
    resume false next answer a = next answer := by
  cases a with
  | again c => exact absurd rfl (ha c)
  | _ => rfl

/-- The coroutine of `startProxy` takes the next step of its course. -/
theorem Started.step_starting {n : ℕ} (hn : n < 10) (hserving : Serving st i)
    (hwork : AtWork st i k (startPoint n))
    (hrunning : (st.services i).flag .isProxyRunning = decide (3 ≤ n))
    (hengine : st.engine = decide (9 ≤ n)) (h : Lawful st)
    (hturn : CoroutineStep st st' k answer t a next)
    (hok : NoFailure st (.coroutine k answer)) : Started st' := by
  obtain ⟨next', hpoint⟩ := startPoint_act hn
  obtain ⟨t₁, ht₁, hservice₁, -, hcancelled₁, hcode₁⟩ := hwork.found
  obtain rfl := Option.some.inj (hturn.found.symm.trans ht₁)
  have hact := hturn.code.symm.trans (hcode₁.trans hpoint)
  obtain ⟨rfl, rfl⟩ : a = (startCourse n).1 ∧ next = next' := by
    cases hact
    exact ⟨rfl, rfl⟩
  have hfresh : ∀ t', ¬Fresh st t.service (startCourse n).1 t' := by
    rintro t' hfresh
    obtain ⟨c, -, ⟨-, hlaunch⟩ | ⟨-, hlaunch, -⟩⟩ := hfresh.code <;> interval_cases n <;>
      cases hlaunch
  obtain ⟨-, -, -, hwork'⟩ := hwork.step_self h hturn hfresh
  have hanswer : (st.perform i answer (startCourse n).1).2 = (startCourse n).2 := by
    have hpossible := hturn.possible
    have hyes := hok _ hturn.found
    rw [hturn.code] at hyes
    interval_cases n
    case «1» | «4» | «9» => exact hserving.requested
    case «3» => simpa [startCourse, perform, impossible, hcancelled₁] using hpossible
    case «5» | «6» | «7» => exact hyes rfl
    case «8» => simp [perform, startCourse, hengine]
    all_goals rfl
  have hself : (startCourse n).1 ≠ .stopSelf := by interval_cases n <;> rintro ⟨⟩
  have hagain : ∀ c, (startCourse n).1 ≠ .again c := by interval_cases n <;> rintro _ ⟨⟩
  have hserving' := hturn.serving hserving hself
  rw [resume_eq hagain, hanswer, ← along_succ hpoint] at hwork'
  have hrunning' : (st'.services i).flag .isProxyRunning = decide (3 ≤ n + 1) := by
    rw [hturn.services, perform_flag, hrunning, hservice₁]
    interval_cases n <;> simp [startCourse]
  have hengine' : st'.engine = decide (9 ≤ n + 1) := by
    rw [hturn.engine, perform_engine, hengine]
    interval_cases n <;> rfl
  by_cases hlast : n = 9
  · subst hlast
    refine .running i hserving' hrunning' hengine' fun t ht => ?_
    obtain ⟨j, hj⟩ := List.mem_iff_getElem?.mp ht
    by_cases hjk : j = k
    · subst hjk
      obtain ⟨t₂, ht₂, -, -, -, hcode₂⟩ := hwork'.found
      obtain rfl := Option.some.inj (hj.symm.trans ht₂)
      rw [hcode₂]
      rfl
    · exact hwork'.others j t hj hjk
  · exact .starting i k (n + 1) (by omega) hserving' hwork' hrunning' hengine'

theorem CoroutineStep.launched {c : Coroutine} (hserving : Serving st i) (h : Lawful st)
    (hturn : CoroutineStep st st' k answer t (.launch c) next) (hservice : t.service = i)
    (hothers : ∀ (j : ℕ) (t₀ : LaunchedCoroutine), st.coroutines[j]? = some t₀ → j ≠ k →
      busy t₀.code = false) (hself : busy (next true) = false) :
    AtWork st' i st.coroutines.length (.act .suspend fun _ => c.body) := by
  have hscope := (h.current i hserving.current).2
  have hlt : k < st.coroutines.length := (List.getElem?_eq_some_iff.mp hturn.found).1
  have hperform : (st.perform t.service answer (.launch c)).1.coroutines =
      st.coroutines ++ [⟨i, none, false, .act .suspend fun _ => c.body⟩] := by
    rw [hservice]
    simp [perform, launch, hscope]
  refine AtWork.launched ?_ ?_ fun j t' ht' hj => ?_
  · rw [hturn.coroutines, hperform]
    simp
  · rw [hturn.coroutines, hperform, List.getElem?_modify_ne _ _ (Nat.ne_of_lt hlt)]
    simp
  · obtain ⟨t'', ht'', -, -, hcode, -⟩ :=
      hturn.evolves.kept j _ (List.getElem?_eq_getElem hj)
    obtain rfl := Option.some.inj (ht'.symm.trans ht'')
    rw [hcode]
    split
    · exact hself
    · exact hothers j _ (List.getElem?_eq_getElem hj) ‹_›

/-- The coroutine of `restartProxy` takes the next step of its course. -/
theorem Started.step_restarting {n : ℕ} (hn : n < 9) (hserving : Serving st i)
    (hwork : AtWork st i k (restartPoint n))
    (hrunning : 2 ≤ n → (st.services i).flag .isProxyRunning = false)
    (hengine : 4 ≤ n → st.engine = false) (h : Lawful st)
    (hturn : CoroutineStep st st' k answer t a next) : Started st' := by
  obtain ⟨next', hpoint⟩ := restartPoint_act hn
  obtain ⟨t₁, ht₁, hservice₁, -, hcancelled₁, hcode₁⟩ := hwork.found
  obtain rfl := Option.some.inj (hturn.found.symm.trans ht₁)
  have hact := hturn.code.symm.trans (hcode₁.trans hpoint)
  obtain ⟨rfl, rfl⟩ : a = (restartCourse n).1 ∧ next = next' := by
    cases hact
    exact ⟨rfl, rfl⟩
  have hself : (restartCourse n).1 ≠ .stopSelf := by interval_cases n <;> rintro ⟨⟩
  have hserving' := hturn.serving hserving hself
  have hrunning' : 1 ≤ n → (st'.services i).flag .isProxyRunning = false := by
    intro hle
    rw [hturn.services, perform_flag, hservice₁]
    interval_cases n <;> simp [restartCourse, hrunning]
  have hengine' : 3 ≤ n → st'.engine = false := by
    intro hle
    rw [hturn.engine, perform_engine]
    interval_cases n <;> simp [restartCourse, hengine]
  by_cases hlast : n = 8
  · subst hlast
    have hnext : restartPoint 9 = next true := along_succ hpoint
    have hwork' : AtWork st' i _ (startPoint 0) :=
      CoroutineStep.launched hserving h hturn hservice₁ hwork.others (by rw [← hnext]; rfl)
    exact .starting i _ 0 (by omega) hserving' hwork' (hrunning' (by omega)) (hengine' (by omega))
  · have hfresh : ∀ t', ¬Fresh st t.service (restartCourse n).1 t' := by
      rintro t' hfresh
      obtain ⟨c, -, ⟨-, hlaunch⟩ | ⟨-, hlaunch, -⟩⟩ := hfresh.code <;> interval_cases n <;>
        first | exact absurd rfl hlast | cases hlaunch
    obtain ⟨-, -, -, hwork'⟩ := hwork.step_self h hturn hfresh
    have hanswer : (st.perform i answer (restartCourse n).1).2 = (restartCourse n).2 := by
      interval_cases n
      case «4» => exact hserving.requested
      case «5» => exact hrunning (by omega)
      case «8» => exact absurd rfl hlast
      all_goals rfl
    have hagain : ∀ c, (restartCourse n).1 ≠ .again c := by interval_cases n <;> rintro _ ⟨⟩
    rw [resume_eq hagain, hanswer, ← along_succ hpoint] at hwork'
    exact .restarting i k (n + 1) (by omega) hserving' hwork'
      (fun hle => hrunning' (by omega)) fun hle => hengine' (by omega)

/-- A step while no coroutine is busy: it goes on so, or a restart is launched. -/
theorem Started.step_running (hserving : Serving st i)
    (hrunning : (st.services i).flag .isProxyRunning = true) (hengine : st.engine = true)
    (hquiet : ∀ t ∈ st.coroutines, busy t.code = false) (h : Lawful st)
    (hturn : CoroutineStep st st' k answer t a next) : Started st' := by
  have hmem := List.mem_of_getElem? hturn.found
  have hidle := hquiet t hmem
  rw [hturn.code] at hidle
  have ha : affects a = false := not_occurs_here hidle
  have hserving' := hturn.serving_of_idle hserving (hturn.code ▸ hidle)
  obtain ⟨hengine', hrunning'⟩ := hturn.unaffected (hturn.code ▸ hidle)
  by_cases hlaunch : a = .launch .restartProxy ∧ (st.services t.service).scopeCancelled = false
  · obtain ⟨rfl, hscope⟩ := hlaunch
    have hwork : AtWork st' i _ (restartPoint 0) :=
      CoroutineStep.launched hserving h hturn (hserving.notGone h hmem hscope)
        (fun j t₀ ht₀ _ => hquiet t₀ (List.mem_of_getElem? ht₀)) (not_occurs_next hidle true)
    exact .restarting i _ 0 (by omega) hserving' hwork (by omega) (by omega)
  · refine .running i hserving' (by rw [hrunning', hrunning]) (by rw [hengine', hengine])
      fun t' ht' => ?_
    rcases hturn.evolves.cases ht' with ⟨j, t₀, ht₀, -, -, hcode⟩ | hfresh
    · rw [hcode]
      split
      · exact idle_resume hidle _ _
      · exact hquiet t₀ (List.mem_of_getElem? ht₀)
    · rcases hfresh.idle ha with hidle' | ⟨hrestart, -⟩
      · exact hidle'
      · exact absurd ⟨hrestart, hfresh.scope⟩ hlaunch

theorem Started.step_coroutine (hstarted : Started st) (h : Lawful st)
    (hturn : CoroutineStep st st' k answer t a next) (hcond : Uncontended st (.coroutine k answer))
    (hok : NoFailure st (.coroutine k answer)) : Started st' := by
  cases hstarted with
  | starting i l n hn hserving hwork hrunning hengine =>
      by_cases hkl : k = l
      · subst hkl
        exact .step_starting hn hserving hwork hrunning hengine h hturn hok
      · have hidle := hwork.others k t hturn.found hkl
        obtain ⟨hengine', hrunning'⟩ := hturn.unaffected hidle
        exact .starting i l n hn (hturn.serving_of_idle hserving hidle)
          (hwork.step_other (busy_startPoint hn) h hserving hturn hcond hkl)
          (by rw [hrunning', hrunning]) (by rw [hengine', hengine])
  | restarting i l n hn hserving hwork hrunning hengine =>
      by_cases hkl : k = l
      · subst hkl
        exact .step_restarting hn hserving hwork hrunning hengine h hturn
      · have hidle := hwork.others k t hturn.found hkl
        obtain ⟨hengine', hrunning'⟩ := hturn.unaffected hidle
        exact .restarting i l n hn (hturn.serving_of_idle hserving hidle)
          (hwork.step_other (busy_restartPoint hn) h hserving hturn hcond hkl)
          (fun hle => by rw [hrunning', hrunning hle]) fun hle => by rw [hengine', hengine hle]
  | running i hserving hrunning hengine hquiet =>
      exact .step_running hserving hrunning hengine hquiet h hturn
  | delivering i autoStart n hn hcurrent hrequested hselfStopped hmain hrunning hnew hengine =>
      have hmem := List.mem_of_getElem? hturn.found
      have hother : i ≠ t.service := Ne.symm (hnew t hmem)
      have hgone : st.current ≠ some t.service := by simp [hcurrent, hother]
      refine .delivering i autoStart n hn (hturn.current.trans hcurrent)
        (by rw [hturn.requested, hrequested]) ?_ (hturn.main.trans hmain) ?_ (fun t' ht' => ?_)
        fun hengine' => ?_
      · rw [hturn.services, perform_selfStopped, if_neg fun h => hother h.1, hselfStopped]
      · rw [hturn.services, perform_flag, if_neg fun h => hother h.1, if_neg fun h => hother h.1,
          hrunning]
      · rcases hturn.evolves.cases ht' with ⟨j, t₀, ht₀, hservice, -⟩ | hfresh
        · rw [hservice]
          exact hnew t₀ (List.mem_of_getElem? ht₀)
        · exact absurd (hfresh.service ▸ hturn.fresh h hfresh) hgone
      · cases hon : st.engine with
        | true => exact hturn.cleaning (hengine hon) hengine'
        | false =>
            obtain ⟨t', ht', hservice, hcode⟩ := hturn.started h hon hengine'
            refine ⟨t', List.mem_of_getElem? ht', ?_, hcode⟩
            rw [hservice, hturn.requested]
            exact (h.gone t hmem hgone).2

end

/-! ### The main thread -/

section

variable {a : Act} {next : Bool → Process Act Unit} {i : ℕ}

/-- What the main thread does for a start, the launch apart, changes little. -/
theorem perform_coroutines_eq (ha : startsProxy a = true) (hlaunch : a ≠ .launch .startProxy) :
    (st.perform i true a).1.coroutines = st.coroutines := by
  cases a with
  | setRetries n | read f | write f value => rfl
  | launch c =>
      cases c with
      | startProxy => exact absurd rfl hlaunch
      | _ => cases ha
  | _ => cases ha

theorem perform_engine_eq (ha : startsProxy a = true) :
    (st.perform i true a).1.engine = st.engine := by
  rw [perform_engine, if_neg (by rintro rfl; cases ha), if_neg (by rintro rfl; cases ha)]

theorem perform_running_eq (ha : startsProxy a = true) (j : ℕ) :
    ((st.perform i true a).1.services j).flag .isProxyRunning =
      (st.services j).flag .isProxyRunning := by
  rw [perform_flag, if_neg (by rintro ⟨-, rfl⟩; cases ha), if_neg (by rintro ⟨-, rfl⟩; cases ha)]

theorem Serving.step_main (hserving : Serving st i) (hmain : st.main = .act a next)
    (ha : startsProxy a = true) (answer : Bool) :
    Serving { (st.perform i true a).1 with main := next answer } i where
  current := (perform_current _ _ _ (by rintro rfl; cases ha)).trans hserving.current
  requested := by
    change ((st.perform i true a).1.services i).flag _ = _
    rw [perform_flag, if_neg (by rintro ⟨-, rfl⟩; cases ha)]
    split
    · rfl
    · exact hserving.requested
  selfStopped := by
    change ((st.perform i true a).1.services i).selfStopped = _
    rw [perform_selfStopped, if_neg (by rintro ⟨-, rfl⟩; cases ha)]
    exact hserving.selfStopped
  main := by
    have hstarts := hserving.main
    rw [hmain] at hstarts
    exact not_occurs_next hstarts answer

theorem AtWork.congr {p : Process Act Unit} {k : ℕ} (h : AtWork st i k p)
    (heq : st'.coroutines = st.coroutines) : AtWork st' i k p :=
  ⟨heq ▸ h.found, heq ▸ h.others⟩

theorem AtWork.busy {p : Process Act Unit} {k : ℕ} (h : AtWork st i k p)
    (hp : FiveGProxy.busy p = true) : ¬∀ t ∈ st.coroutines, FiveGProxy.busy t.code = false := by
  intro hquiet
  obtain ⟨t, ht, -, -, -, hcode⟩ := h.found
  have hidle := hquiet t (List.mem_of_getElem? ht)
  rw [hcode, hp] at hidle
  cases hidle

/-- The main thread launches nothing in a service that runs or has a coroutine at work. -/
theorem Serving.not_launched (hserving : Serving st i) (h : Lawful st) (hcond : Uncontended st .main)
    (hmain : st.main = .act a next)
    (hbusy : (st.services i).flag .isProxyRunning = true ∨
      ¬∀ t ∈ st.coroutines, busy t.code = false) : a ≠ .launch .startProxy := by
  rintro rfl
  have hlaunch := hcond i hserving.current (h.current i hserving.current).2 hserving.requested
  rw [hmain] at hlaunch
  rcases hbusy with hrunning | hbusy
  · rw [hlaunch.1 rfl] at hrunning
    cases hrunning
  · exact hbusy (hlaunch.2 (.inl rfl))

theorem Started.step_delivering {autoStart : Bool} {n : ℕ} (hn : n < 7)
    (hcurrent : st.current = some i)
    (hrequested : (st.services i).flag .stopRequested = false)
    (hselfStopped : (st.services i).selfStopped = false)
    (hmain : st.main = deliverPoint autoStart n)
    (hrunning : (st.services i).flag .isProxyRunning = false)
    (hnew : ∀ t ∈ st.coroutines, t.service ≠ i) (hengine : st.engine = true → Cleaning st)
    (h : Lawful st) (hcond : Uncontended st .main) (hact : st.main = .act a next) :
    Started { (st.perform i true a).1 with main := next (st.perform i true a).2 } := by
  obtain ⟨next', hpoint⟩ := deliverPoint_act autoStart hn
  have hcode := hact.symm.trans (hmain.trans hpoint)
  obtain ⟨rfl, rfl⟩ : a = (deliverCourse autoStart n).1 ∧ next = next' := by
    cases hcode
    exact ⟨rfl, rfl⟩
  have ha : startsProxy (deliverCourse autoStart n).1 = true := by interval_cases n <;> rfl
  have hanswer : (st.perform i true (deliverCourse autoStart n).1).2 =
      (deliverCourse autoStart n).2 := by
    interval_cases n
    case «2» => exact hrequested
    case «3» => exact hrunning
    all_goals rfl
  have hserving : Serving st i := by
    refine ⟨hcurrent, hrequested, hselfStopped, ?_⟩
    rw [hmain]
    interval_cases n <;> rfl
  have hserving' := hserving.step_main hact ha (st.perform i true (deliverCourse autoStart n).1).2
  by_cases hlast : n = 6
  · subst hlast
    have hscope := (h.current i hcurrent).2
    have hlaunch := hcond i hcurrent hscope hrequested
    rw [hact] at hlaunch
    have hquiet := hlaunch.2 (.inl rfl)
    have hoff : st.engine = false := by
      by_contra hon
      obtain ⟨t, ht, -, hcleans⟩ := hengine (by simpa using hon)
      have hidle := hquiet t ht
      rw [busy_of_cleans hcleans] at hidle
      cases hidle
    have hcoroutines : (st.perform i true (deliverCourse autoStart 6).1).1.coroutines =
        st.coroutines ++ [⟨i, none, false, startPoint 0⟩] := by
      change (st.launch i none .startProxy).coroutines = _
      rw [launch, if_neg (by simp [hscope])]
      rfl
    refine .starting i st.coroutines.length 0 (by omega) hserving' (AtWork.launched ?_ ?_ ?_) ?_ ?_
    · simp [hcoroutines]
    · simp [hcoroutines]
    · intro j t' ht' hj
      change (st.perform i true (deliverCourse autoStart 6).1).1.coroutines[j]? = _ at ht'
      rw [hcoroutines, List.getElem?_append_left hj] at ht'
      exact hquiet t' (List.mem_of_getElem? ht')
    · exact (perform_running_eq ha i).trans hrunning
    · exact (perform_engine_eq ha).trans hoff
  · have hlaunch : (deliverCourse autoStart n).1 ≠ .launch .startProxy := by
      interval_cases n <;> first | exact absurd rfl hlast | rintro ⟨⟩
    have hcoroutines : (st.perform i true _).1.coroutines = st.coroutines :=
      perform_coroutines_eq ha hlaunch
    refine .delivering i autoStart (n + 1) (by omega) hserving'.current hserving'.requested
      hserving'.selfStopped ?_ ((perform_running_eq ha i).trans hrunning) ?_ fun hengine' => ?_
    · change next _ = _
      rw [hanswer]
      exact (along_succ hpoint).symm
    · change ∀ t ∈ (st.perform i true (deliverCourse autoStart n).1).1.coroutines, _
      rw [hcoroutines]
      exact hnew
    · obtain ⟨t, ht, hflag, hcleans⟩ := hengine ((perform_engine_eq ha).symm.trans hengine')
      refine ⟨t, ?_, ?_, hcleans⟩
      · change t ∈ (st.perform i true (deliverCourse autoStart n).1).1.coroutines
        rw [hcoroutines]
        exact ht
      · change ((st.perform i true (deliverCourse autoStart n).1).1.services _).flag _ = _
        rw [perform_flag, if_neg fun h => hnew t ht h.1, if_neg fun h => hnew t ht h.1]
        exact hflag

theorem Started.step_main (hstarted : Started st) (h : Lawful st) (hcond : Uncontended st .main)
    (hstep : appStep st .main = some st') : Started st' := by
  obtain ⟨a, next, i, hmain, hcurrent, rfl⟩ := main_cases hstep
  have hstarts : ∀ {j}, Serving st j → j = i ∧ startsProxy a = true := by
    intro j hserving
    obtain rfl := Option.some.inj (hserving.current.symm.trans hcurrent)
    have hhere := hserving.main
    rw [hmain] at hhere
    exact ⟨rfl, by simpa using not_occurs_here hhere⟩
  cases hstarted with
  | delivering j autoStart n hn hj hrequested hselfStopped hdeliver hrunning hnew hengine =>
      obtain rfl := Option.some.inj (hj.symm.trans hcurrent)
      exact .step_delivering hn hj hrequested hselfStopped hdeliver hrunning hnew hengine h hcond
        hmain
  | starting j k n hn hserving hwork hrunning hengine =>
      obtain ⟨rfl, ha⟩ := hstarts hserving
      have hlaunch := hserving.not_launched h hcond hmain (.inr (hwork.busy (busy_startPoint hn)))
      exact .starting j k n hn (hserving.step_main hmain ha _)
        (hwork.congr (perform_coroutines_eq ha hlaunch))
        ((perform_running_eq ha j).trans hrunning) ((perform_engine_eq ha).trans hengine)
  | restarting j k n hn hserving hwork hrunning hengine =>
      obtain ⟨rfl, ha⟩ := hstarts hserving
      have hlaunch := hserving.not_launched h hcond hmain
        (.inr (hwork.busy (busy_restartPoint hn)))
      exact .restarting j k n hn (hserving.step_main hmain ha _)
        (hwork.congr (perform_coroutines_eq ha hlaunch))
        (fun hle => (perform_running_eq ha j).trans (hrunning hle))
        fun hle => (perform_engine_eq ha).trans (hengine hle)
  | running j hserving hrunning hengine hquiet =>
      obtain ⟨rfl, ha⟩ := hstarts hserving
      have hlaunch := hserving.not_launched h hcond hmain (.inl hrunning)
      refine .running j (hserving.step_main hmain ha _) ((perform_running_eq ha j).trans hrunning)
        ((perform_engine_eq ha).trans hengine) ?_
      change ∀ t ∈ (st.perform j true a).1.coroutines, _
      rw [perform_coroutines_eq ha hlaunch]
      exact hquiet

/-! ### Runs -/

theorem Started.current (hstarted : Started st) : st.current ≠ none := by
  cases hstarted with
  | delivering i _ _ _ hcurrent => simp [hcurrent]
  | starting i _ _ _ hserving => simp [hserving.current]
  | restarting i _ _ _ hserving => simp [hserving.current]
  | running i hserving => simp [hserving.current]

theorem Started.start_again (hstarted : Started st) (hmain : st.main.ended = true)
    (autoStart : Bool) (c : Option Intent) :
    Started { st with main := onStart autoStart, command := c } := by
  have hserving : ∀ {i}, Serving st i →
      Serving { st with main := onStart autoStart, command := c } i := fun h =>
    ⟨h.current, h.requested, h.selfStopped, rfl⟩
  cases hstarted with
  | delivering i auto n hn _ _ _ hdeliver =>
      obtain ⟨next, hpoint⟩ := deliverPoint_act auto hn
      rw [hdeliver, hpoint] at hmain
      cases hmain
  | starting i k n hn hserving' hwork hrunning hengine =>
      exact .starting i k n hn (hserving hserving') (hwork.congr rfl) hrunning hengine
  | restarting i k n hn hserving' hwork hrunning hengine =>
      exact .restarting i k n hn (hserving hserving') (hwork.congr rfl) hrunning hengine
  | running i hserving' hrunning hengine hquiet =>
      exact .running i (hserving hserving') hrunning hengine hquiet

theorem Started.start_new (h : Lawful st) (hnone : st.current = none)
    (hengine : st.engine = true → Cleaning st) (autoStart : Bool) (c : Option Intent) :
    Started { st.deliver with main := onStart autoStart, command := c } := by
  have hdeliver : st.deliver = { st with
      services := Function.update st.services st.created .new
      created := st.created + 1
      current := some st.created } := by
    rw [deliver, hnone]
  have hnew : ∀ t ∈ st.coroutines, t.service ≠ st.created := fun t ht =>
    Nat.ne_of_lt (h.owned t ht)
  rw [hdeliver]
  refine .delivering st.created autoStart 0 (by omega) rfl ?_ ?_ rfl ?_ hnew fun hon => ?_
  · simp [ProxyService.new]
  · simp [ProxyService.new]
  · simp [ProxyService.new]
  · obtain ⟨t, ht, hflag, hcleans⟩ := hengine hon
    refine ⟨t, ht, ?_, hcleans⟩
    change (Function.update st.services st.created ProxyService.new t.service).flag _ = true
    rw [Function.update_of_ne (hnew t ht)]
    exact hflag

/-- What the last intent has brought about. -/
structure Obeys (st : App) : Prop where
  lawful : Lawful st
  untouched : st.command = none → st.engine = false ∧ st.current = none ∧ st.coroutines = []
  stopping : st.command = some .stop → Stopping st
  started : ∀ autoStart, st.command = some (.start autoStart) → Started st

theorem Obeys.init : Obeys App.init where
  lawful := Lawful.init
  untouched _ := ⟨rfl, rfl, rfl⟩
  stopping := nofun
  started := nofun

theorem Obeys.step_start (h : Obeys st) {autoStart : Bool}
    (hcond : Uncontended st (.intent (.start autoStart))) (hmain : st.main.ended = true) :
    Started { st.deliver with main := onStart autoStart, command := some (.start autoStart) } := by
  cases hcurrent : st.current with
  | some i =>
      have hdeliver : st.deliver = st := by rw [deliver, hcurrent]
      rw [hdeliver]
      cases hcommand : st.command with
      | none => exact absurd (h.untouched hcommand).2.1 (by simp [hcurrent])
      | some c =>
          cases c with
          | start auto => exact (h.started auto hcommand).start_again hmain autoStart _
          | stop =>
              rcases (h.stopping hcommand).requested i hcurrent with hflag | ⟨hsettles, -⟩
              · rw [hcond i hcurrent] at hflag
                cases hflag
              · rw [ended_of_inevitable hsettles] at hmain
                cases hmain
  | none =>
      refine Started.start_new h.lawful hcurrent (fun hengine => ?_) autoStart _
      cases hcommand : st.command with
      | none =>
          rw [(h.untouched hcommand).1] at hengine
          cases hengine
      | some c =>
          cases c with
          | start auto => exact absurd hcurrent (h.started auto hcommand).current
          | stop =>
              cases (h.stopping hcommand).justified hengine with
              | cleaning hcleaning => exact hcleaning
              | settling hsettles =>
                  rw [ended_of_inevitable hsettles] at hmain
                  cases hmain
              | doomed i hi => exact absurd hcurrent (by simp [hi])
              | cleanup i hi => exact absurd hcurrent (by simp [hi])

theorem Obeys.step (h : Obeys st) {ev : AppEvent} (hok : NoFailure st ev) (hcond : Uncontended st ev)
    (hstep : appStep st ev = some st') : Obeys st' := by
  refine ⟨h.lawful.step hstep, fun hnone => ?_, Stopping.step h.lawful h.stopping hstep,
    fun autoStart hstart => ?_⟩
  · cases ev with
    | intent c =>
        simp only [appStep] at hstep
        split at hstep
        · obtain rfl := Option.some.inj hstep
          cases hnone
        · cases hstep
    | destroy =>
        simp only [appStep] at hstep
        split at hstep
        · cases hstep
        · split at hstep
          · obtain rfl := Option.some.inj hstep
            exact h.untouched hnone
          · cases hstep
    | main =>
        obtain ⟨a, next, i, -, hcurrent, rfl⟩ := main_cases hstep
        have huntouched := h.untouched ((perform_command ..).symm.trans hnone)
        exact absurd huntouched.2.1 (by simp [hcurrent])
    | coroutine k answer =>
        obtain ⟨t, a, next, hturn⟩ := h.lawful.coroutineStep hstep
        have hempty := (h.untouched (hturn.command ▸ hnone)).2.2
        have hfound := hturn.found
        rw [hempty] at hfound
        cases hfound
  · cases ev with
    | intent c =>
        simp only [appStep] at hstep
        split at hstep
        · obtain rfl := Option.some.inj hstep
          obtain rfl := Option.some.inj hstart
          exact h.step_start hcond ‹_›
        · cases hstep
    | destroy =>
        simp only [appStep] at hstep
        split at hstep
        · cases hstep
        · rename_i i hcurrent
          split at hstep
          · rename_i hdoomed
            rw [Bool.and_eq_true] at hdoomed
            obtain rfl := Option.some.inj hstep
            have hself : (st.services i).selfStopped = false := by
              cases h.started autoStart hstart with
              | delivering j _ _ _ hj _ hself =>
                  obtain rfl := Option.some.inj (hj.symm.trans hcurrent)
                  exact hself
              | starting j _ _ _ hserving | restarting j _ _ _ hserving | running j hserving =>
                  obtain rfl := Option.some.inj (hserving.current.symm.trans hcurrent)
                  exact hserving.selfStopped
            rw [hself] at hdoomed
            cases hdoomed.2
          · cases hstep
    | main =>
        have hcommand : st.command = some (.start autoStart) := by
          obtain ⟨a, next, i, -, -, rfl⟩ := main_cases hstep
          exact (perform_command ..).symm.trans hstart
        exact (h.started autoStart hcommand).step_main h.lawful hcond hstep
    | coroutine k answer =>
        obtain ⟨t, a, next, hturn⟩ := h.lawful.coroutineStep hstep
        have hcommand : st.command = some (.start autoStart) := hturn.command ▸ hstart
        exact (h.started autoStart hcommand).step_coroutine h.lawful hturn hcond hok

theorem Started.engine_on (hstarted : Started st) (hfinished : Finished st) :
    st.engine = true := by
  have hwork : ∀ {i k p}, AtWork st i k p → p.ended = true := by
    intro i k p hwork
    obtain ⟨t, ht, -, hjob, -, rfl⟩ := hwork.found
    exact hfinished.coroutines t (List.mem_of_getElem? ht) hjob
  cases hstarted with
  | delivering i autoStart n hn _ _ _ hmain =>
      obtain ⟨next, hpoint⟩ := deliverPoint_act autoStart hn
      have hended := hfinished.main
      rw [hmain, hpoint] at hended
      cases hended
  | starting i k n hn _ hwork' =>
      obtain ⟨next, hpoint⟩ := startPoint_act hn
      have hended := hwork hwork'
      rw [hpoint] at hended
      cases hended
  | restarting i k n hn _ hwork' =>
      obtain ⟨next, hpoint⟩ := restartPoint_act hn
      have hended := hwork hwork'
      rw [hpoint] at hended
      cases hended
  | running i _ _ hengine => exact hengine

end

end App

open App

/-- In every run in which the environment produces no failure, no start is handled by a service that
has been told to stop, and nothing is launched that collides, the engine runs at the end exactly if
the last intent was a start. -/
theorem last_command_wins {evs : List AppEvent} {st : App}
    (hok : Meets appStep NoFailure App.init evs) (hcond : Meets appStep Uncontended App.init evs)
    (hrun : run appStep App.init evs = some st) (hfinished : Finished st) :
    st.engine = true ↔ ∃ autoStart, st.command = some (.start autoStart) := by
  have hobeys : Obeys st := run_invariant_of_meets (P := Obeys)
    (fun _ _ _ h hcond hstep => h.step hcond.1 hcond.2 hstep) Obeys.init (hok.and hcond) hrun
  constructor
  · intro hengine
    cases hcommand : st.command with
    | none =>
        rw [(hobeys.untouched hcommand).1] at hengine
        cases hengine
    | some c =>
        cases c with
        | start autoStart => exact ⟨autoStart, rfl⟩
        | stop =>
            rw [(hobeys.stopping hcommand).engine_off hobeys.lawful hfinished] at hengine
            cases hengine
  · rintro ⟨autoStart, hcommand⟩
    exact (hobeys.started autoStart hcommand).engine_on hfinished

/-- A start, up to the end of its coroutine, which is the one with the index `k`. -/
def startUp (k : ℕ) : List AppEvent :=
  List.flatten [[.intent (.start false)], List.replicate 7 .main,
    List.replicate 13 (.coroutine k true)]

/-- A restart of the watchdog, a stop and, when the service is destroyed, a start. -/
def restartStopStart : List AppEvent :=
  List.flatten [startUp 0, List.replicate 15 (.coroutine 2 true),
    List.replicate 10 (.coroutine 3 true), List.replicate 13 (.coroutine 4 true), [.intent .stop],
    List.replicate 8 .main, List.replicate 3 (.coroutine 7 true), [.destroy],
    List.replicate 7 .main, startUp 8]

theorem last_command_wins_restartStopStart : ∃ st,
    run appStep App.init restartStopStart = some st ∧
      (st.engine = true ↔ ∃ autoStart, st.command = some (.start autoStart)) := by
  obtain ⟨st, hrun, hfinished⟩ := exists_run_of_any (by decide +kernel :
    (run appStep App.init restartStopStart).any (fun st => decide (Finished st)) = true)
  exact ⟨st, hrun, last_command_wins (by decide +kernel) (by decide +kernel) hrun hfinished⟩

/-- A start arrives before the service is destroyed that a stop is about to end. -/
def startDuringStop : List AppEvent :=
  List.flatten [startUp 0, [.intent .stop], List.replicate 8 .main, [.intent (.start false)],
    List.replicate 7 .main, List.replicate 3 (.coroutine 3 true),
    List.replicate 13 (.coroutine 4 true), [.destroy], List.replicate 7 .main]

def startDuringStart : List AppEvent :=
  List.flatten [[.intent (.start false)], List.replicate 7 .main, startUp 0,
    List.replicate 17 (.coroutine 1 true), [.destroy], List.replicate 7 .main]

/-- Both times nothing fails, the last intent is a start, and the engine is off. -/
theorem last_start_undone :
    (∃ st, run appStep App.init startDuringStop = some st ∧
        Meets appStep NoFailure App.init startDuringStop ∧ Finished st ∧
          st.command = some (.start false) ∧ st.engine = false) ∧
      ∃ st, run appStep App.init startDuringStart = some st ∧
        Meets appStep NoFailure App.init startDuringStart ∧ Finished st ∧
          st.command = some (.start false) ∧ st.engine = false := by
  constructor
  · obtain ⟨st, hrun, hend⟩ := exists_run_of_any (by decide +kernel :
      (run appStep App.init startDuringStop).any (fun st =>
        decide (Finished st ∧ st.command = some (.start false) ∧ st.engine = false)) = true)
    exact ⟨st, hrun, by decide +kernel, hend⟩
  · obtain ⟨st, hrun, hend⟩ := exists_run_of_any (by decide +kernel :
      (run appStep App.init startDuringStart).any (fun st =>
        decide (Finished st ∧ st.command = some (.start false) ∧ st.engine = false)) = true)
    exact ⟨st, hrun, by decide +kernel, hend⟩

end FiveGProxy
