import FiveGProxy.Library.Process
import FiveGProxy.Library.Steps
import Mathlib.Logic.Function.Basic

/-!
# Starting and stopping the proxy service

The main thread handles the intents, and `onDestroy` when the service has called `stopSelf`. What
takes long is left to coroutines of `serviceScope`, which run on other threads at the same time.
They and the main thread meet in the volatile fields of the service and in the native engine, of
which there is one for all services of the process. Each access to a field is an action of its own.

Left out are the fields that steer none of this: what is shown to the user, the networks, and the
Java sockets. The loops that look after the LAN addresses and the statistics only read the fields.
`command` is not in the code.
-/

namespace FiveGProxy

open Steps

namespace Service

/-- The volatile fields that are tested. -/
inductive Flag
  | stopRequested | isProxyRunning | proxyPaused | engineStarting | isRestarting
  deriving DecidableEq

/-- What the code asks of its environment. -/
inductive Question
  /-- `currentNetwork()` is not null. -/
  | network
  /-- `canBindCellularEgress`. -/
  | egress
  /-- `collectLanBindAddresses()` is not empty. -/
  | lanAddress
  /-- The health check: bytes have come in since the last time. -/
  | trafficFlowing
  /-- The health check: `cellularNetwork` is null. -/
  | networkMissing
  /-- The health check: the outcome is `NETWORK_DEAD`. -/
  | networkDead
  /-- The watchdog: `!isNativeThreadAlive()`. -/
  | nativeDead
  deriving DecidableEq

/-- The bodies given to `launch`. -/
inductive Coroutine
  | startProxy
  | stopProxy
  | restartProxy
  /-- The retry of `failStop`. -/
  | autoStart
  /-- A turn of the health check, after so many failures in a row. -/
  | healthCheck (consecutiveFailures : ℕ)
  | watchdog
  deriving DecidableEq

inductive Act
  | read (f : Flag)
  | write (f : Flag) (value : Bool)
  /-- `autoStartRetriesLeft = n`. -/
  | setRetries (n : ℕ)
  /-- `autoStartRetriesLeft > 0`. -/
  | retriesLeft
  /-- `autoStartRetriesLeft--`. -/
  | takeRetry
  /-- Yes for `"Started"`. -/
  | startSocks5Server
  | stopSocks5Server
  | stopSelf
  | launch (c : Coroutine)
  /-- `loopsJob = serviceScope.launch { .. }`. -/
  | launchLoops
  /-- `loopsJob?.cancel()`. -/
  | cancelLoops
  /-- `loopsJob = null`. -/
  | forgetLoops
  /-- `serviceScope.cancel()`. -/
  | cancelScope
  /-- The coroutine waits for a thread, or for a `delay`. -/
  | suspend
  /-- `awaitNetwork`; no when it throws since the coroutine was cancelled. -/
  | awaitNetwork
  | question (q : Question)
  /-- The loop starts over. -/
  | again (c : Coroutine)
  deriving DecidableEq

open Process

def read (f : Flag) : Process Act Bool := ask (.read f)

def write (f : Flag) (value : Bool) : Process Act Unit := tell (.write f value)

def question (q : Question) : Process Act Bool := ask (.question q)

/-! ### The methods of the service -/

def startProxy : Process Act Unit := do
  if ← read .stopRequested then return
  if ← read .isProxyRunning then return
  write .proxyPaused false
  write .engineStarting true
  tell (.launch .startProxy)

def failStop : Process Act Unit := do
  write .isProxyRunning false
  write .proxyPaused false
  tell .cancelLoops
  tell .forgetLoops
  tell .stopSocks5Server
  if ← ask .retriesLeft then
    unless ← read .stopRequested do
      tell .takeRetry
      tell (.launch .autoStart)
      return
  tell .stopSelf

def restartProxy : Process Act Unit := do
  if ← read .stopRequested then return
  if ← read .isRestarting then return
  if ← read .engineStarting then return
  unless ← read .isProxyRunning do return
  write .isRestarting true
  tell (.launch .restartProxy)

def stopProxy : Process Act Unit := do
  write .stopRequested true
  tell .cancelLoops
  tell .forgetLoops
  unless ← read .isProxyRunning do
    unless ← read .proxyPaused do
      tell .stopSelf
      return
  write .isProxyRunning false
  write .proxyPaused false
  tell (.launch .stopProxy)

/-- `AUTO_START_RETRIES`. -/
def autoStartRetries : ℕ := 5

/-- `onStartCommand` with `ACTION_STOP_PROXY`. -/
def onStop : Process Act Unit := do
  tell (.setRetries 0)
  stopProxy

/-- `onStartCommand` with `ACTION_START_PROXY`; `autoStart` is the extra of `BootReceiver`. -/
def onStart (autoStart : Bool) : Process Act Unit := do
  tell (.setRetries (if autoStart then autoStartRetries else 0))
  write .stopRequested false
  startProxy

def onDestroy : Process Act Unit := do
  write .stopRequested true
  write .isProxyRunning false
  write .proxyPaused false
  tell .cancelLoops
  tell .forgetLoops
  tell .stopSocks5Server
  tell .cancelScope

/-! ### The coroutines -/

/-- The `try` block of the coroutine of `startProxy`. -/
def startEngine : Process Act Unit := do
  if ← read .stopRequested then
    tell .stopSelf
    return
  write .isProxyRunning true
  unless ← ask .awaitNetwork do
    failStop
    return
  if ← read .stopRequested then
    tell .stopSelf
    return
  unless ← question .network do
    failStop
    return
  unless ← question .egress do
    failStop
    return
  unless ← question .lanAddress do
    failStop
    return
  unless ← ask .startSocks5Server do
    failStop
    return
  if ← read .stopRequested then
    tell .stopSocks5Server
    tell .stopSelf
    return
  tell .cancelLoops
  tell .launchLoops

def Coroutine.body : Coroutine → Process Act Unit
  | .startProxy => do
      startEngine
      write .engineStarting false
  | .stopProxy => do
      tell .stopSocks5Server
      tell .stopSelf
  | .restartProxy => do
      write .isProxyRunning false
      write .proxyPaused false
      tell .stopSocks5Server
      Service.startProxy
      write .isRestarting false
  | .autoStart => do
      tell .suspend
      unless ← read .stopRequested do
        Service.startProxy
  | .healthCheck consecutiveFailures => do
      unless ← read .isProxyRunning do return
      tell .suspend
      unless ← read .isProxyRunning do return
      if ← question .trafficFlowing then
        tell (.again (.healthCheck 0))
        return
      if ← question .networkMissing then
        tell (.again (.healthCheck consecutiveFailures))
        return
      unless ← question .networkDead do
        tell (.again (.healthCheck 0))
        return
      if 3 ≤ consecutiveFailures + 1 then Service.restartProxy
      else tell (.again (.healthCheck (consecutiveFailures + 1)))
  | .watchdog => do
      unless ← read .isProxyRunning do return
      if ← read .stopRequested then return
      tell .suspend
      if ← read .stopRequested then return
      unless ← read .isProxyRunning do return
      if ← question .nativeDead then
        unless ← read .isRestarting do
          unless ← read .engineStarting do
            Service.restartProxy
            return
      tell (.again .watchdog)

end Service

open Service

/-- A `Socks5ProxyService` object. -/
structure ProxyService where
  flag : Flag → Bool
  autoStartRetriesLeft : ℕ
  loopsJob : Option ℕ
  scopeCancelled : Bool
  /-- `stopSelf` has been called, so that the system will destroy the service. -/
  selfStopped : Bool

structure LaunchedCoroutine where
  /-- The service whose code it is. -/
  service : ℕ
  /-- The `loopsJob` to which it belongs, if it is one of the loops. -/
  job : Option ℕ
  cancelled : Bool
  code : Process Act Unit

inductive Intent
  | start (autoStart : Bool)
  | stop
  deriving DecidableEq

structure App where
  /-- The native engine runs. -/
  engine : Bool
  services : ℕ → ProxyService
  /-- The number of services created so far. -/
  created : ℕ
  /-- The service that is not destroyed. -/
  current : Option ℕ
  /-- What the main thread has still to do. -/
  main : Process Act Unit
  coroutines : List LaunchedCoroutine
  /-- The number of jobs created so far. -/
  jobs : ℕ
  /-- The last intent. -/
  command : Option Intent

inductive AppEvent
  | intent (i : Intent)
  /-- The system destroys the service. -/
  | destroy
  /-- An action of the main thread. -/
  | main
  /-- An action of the coroutine with this index; `answer` is that of the environment. -/
  | coroutine (k : ℕ) (answer : Bool)

def ProxyService.new : ProxyService where
  flag _ := false
  autoStartRetriesLeft := 0
  loopsJob := none
  scopeCancelled := false
  selfStopped := false

namespace App

def init : App where
  engine := false
  services _ := .new
  created := 0
  current := none
  main := .pure ()
  coroutines := []
  jobs := 0
  command := none

def update (st : App) (i : ℕ) (f : ProxyService → ProxyService) : App :=
  { st with services := Function.update st.services i (f (st.services i)) }

/-- `serviceScope.launch`; in a cancelled scope nothing runs. The body waits for a thread. -/
def launch (st : App) (i : ℕ) (job : Option ℕ) (c : Coroutine) : App :=
  if (st.services i).scopeCancelled then st
  else { st with coroutines := st.coroutines ++ [⟨i, job, false, .act .suspend fun _ => c.body⟩] }

def cancel (st : App) (p : LaunchedCoroutine → Bool) : App :=
  { st with
    coroutines := st.coroutines.map fun t => if p t then { t with cancelled := true } else t }

/-- Takes an action for the service `i`, and answers it. -/
def perform (st : App) (i : ℕ) (answer : Bool) : Act → App × Bool
  | .read f => (st, (st.services i).flag f)
  | .write f value => (st.update i fun s => { s with flag := Function.update s.flag f value }, true)
  | .setRetries n => (st.update i fun s => { s with autoStartRetriesLeft := n }, true)
  | .retriesLeft => (st, decide (0 < (st.services i).autoStartRetriesLeft))
  | .takeRetry =>
      (st.update i fun s => { s with autoStartRetriesLeft := s.autoStartRetriesLeft - 1 }, true)
  | .startSocks5Server => ({ st with engine := true }, !st.engine)
  | .stopSocks5Server => ({ st with engine := false }, true)
  | .stopSelf => (st.update i fun s => { s with selfStopped := true }, true)
  | .launch c => (st.launch i none c, true)
  | .launchLoops =>
      ((({ st with jobs := st.jobs + 1 }.update i fun s =>
          { s with loopsJob := some st.jobs }).launch i (some st.jobs) (.healthCheck 0)).launch i
        (some st.jobs) .watchdog, true)
  | .cancelLoops =>
      match (st.services i).loopsJob with
      | none => (st, true)
      | some j => (st.cancel fun t => t.job == some j, true)
  | .forgetLoops => (st.update i fun s => { s with loopsJob := none }, true)
  | .cancelScope =>
      ({ (st.update i fun s => { s with scopeCancelled := true }).cancel fun t => t.service == i with
        current := none }, true)
  | .suspend => (st, true)
  | .awaitNetwork => (st, answer)
  | .question _ => (st, answer)
  | .again _ => (st, true)

def resume (cancelled : Bool) (next : Bool → Process Act Unit) (answer : Bool) :
    Act → Process Act Unit
  | .suspend => if cancelled then .pure () else next answer
  | .again c => c.body
  | _ => next answer

def impossible (t : LaunchedCoroutine) (answer : Bool) (a : Act) : Bool :=
  a == .awaitNetwork && !answer && !t.cancelled

/-- The service that gets the intent; the system creates one if there is none. -/
def deliver (st : App) : App :=
  match st.current with
  | some _ => st
  | none =>
      { st with
        services := Function.update st.services st.created .new
        created := st.created + 1
        current := some st.created }

def onStartCommand : Intent → Process Act Unit
  | .start autoStart => onStart autoStart
  | .stop => onStop

end App

open App in
def appStep (st : App) : AppEvent → Option App
  | .intent i =>
      if st.main.ended then
        some { st.deliver with main := onStartCommand i, command := some i }
      else none
  | .destroy =>
      match st.current with
      | none => none
      | some i =>
          if st.main.ended && (st.services i).selfStopped then some { st with main := onDestroy }
          else none
  | .main =>
      match st.main, st.current with
      | .act a next, some i =>
          some { (st.perform i true a).1 with main := next (st.perform i true a).2 }
      | _, _ => none
  | .coroutine k answer =>
      match st.coroutines[k]? with
      | none => none
      | some t =>
          match t.code with
          | .pure _ => none
          | .act a next =>
              if impossible t answer a then none
              else
                let (st', b) := st.perform t.service answer a
                some { st' with
                  coroutines := st'.coroutines.modify k fun t' =>
                    { t' with code := resume t.cancelled next b a } }

end FiveGProxy
