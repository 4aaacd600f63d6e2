import ServerlessHarness.Library.Utf16

/-!
# A session that takes prompts

The server does not serialize the turns of a session; the client's queue does. `submit` queues a
prompt and calls `drain`, which runs the queued prompts one after the other unless another `drain`
does. A turn asks for a token if it has to, streams, and may start over with a new token or after a
wait.

Each call of `drain` that runs is a thread of its own (`Phase`). It stops wherever it waits for
something, and wherever an event is handed to listeners, who may call the session again; in between
anything else can happen. What it waits for is answered from outside (`Reply`).
-/

set_option autoImplicit false

namespace ServerlessHarness.Mocactl

open Library

/-! ## Prompts, errors and events -/

/-- A prompt, and the number of the `submit` that queued it. -/
structure Prompt where
  id : ℕ
  text : Units
deriving DecidableEq

/-- SRCLINE: api/errors.ts:3-14 -/
structure ApiError where
  harness : Bool
  status : ℕ
  code : String
  retryAfterS : Option ℕ

inductive TurnError where
  | cancelled
  | api (e : ApiError)
  | other

/-- SRCLINE: api/errors.ts:48-52 -/
def tokenCodes : List String := ["token_required", "token_invalid", "token_expired"]

inductive TurnOutcome where
  | done
  | error
  | cancelled
deriving DecidableEq

/-- What listeners are told, and the calls of the harness.
SRCLINE: session-manager.ts:26-31 -/
inductive SessionEvent where
  | turnStart (prompt : Prompt)
  | frame (prompt : Prompt)
  | retrying (seconds : ℕ)
  | turnEnd (prompt : Prompt) (outcome : TurnOutcome)
  | queue (size : ℕ)
  | streamTurn (prompt : Prompt)
deriving DecidableEq

/-! ## Threads -/

/-- What a turn remembers. -/
structure Turn where
  prompt : Prompt
  reminted : Bool
  streamed : Bool
deriving DecidableEq

/-- Where a thread stops. -/
inductive Phase where
  | loop
  | starting (prompt : Prompt)
  | ensuringToken (t : Turn)
  | calling (t : Turn)
  | streaming (t : Turn)
  | terminal (t : Turn) (done : Bool)
  | reminting (t : Turn)
  | sleeping (t : Turn)
  | failing (t : Turn) (cancelled : Bool)
  | ended (prompt : Prompt) (cancelled : Bool)
  | paused
deriving DecidableEq

/-- An answer: what was waited for is there; a frame, and if it ends the turn, whether that is
done; the end of the stream; an error. -/
inductive Reply where
  | ok
  | frame (terminal : Option Bool)
  | eof
  | throws (e : TurnError)

structure ActiveSession where
  queue : List Prompt
  running : Bool
  /-- The prompt whose turn `cancel` aborts. -/
  controller : Option Prompt
  aborted : List Prompt
  /-- The texts that were submitted. -/
  submitted : List Units
  /-- Calls of `drain` that are about to be made. -/
  due : ℕ
  threads : List Phase
  log : List SessionEvent

def ActiveSession.start : ActiveSession := ⟨[], false, none, [], [], 0, [], []⟩

def TurnError.isCancelled : TurnError → Bool
  | cancelled => true
  | _ => false

/-- An error of the stream.
SRCLINE: session-manager.ts:193-215 -/
def caught (aborted : Bool) (t : Turn) (err : TurnError) : List SessionEvent × Phase :=
  if aborted || err.isCancelled then ([], .failing t true)
  else
    match err with
    | .api e =>
      if !e.harness || t.streamed then ([], .failing t false)
      else if tokenCodes.contains e.code || e.code == "session_mismatch" then
        if t.reminted then ([], .failing t false) else ([], .reminting { t with reminted := true })
      else
        match e.retryAfterS with
        | some seconds =>
          if e.status = 503 then ([.retrying seconds], .sleeping t) else ([], .failing t false)
        | none => ([], .failing t false)
    | _ => ([], .failing t false)

namespace ActiveSession

/-- One step of a thread: what it emits or calls, and where it stops next; `none` if it is not what
the thread waits for. The thread ends when the queue is empty. `pauses` is whether there is a pause
after a cancelled turn.
SRCLINE: session-manager.ts:105-228 -/
def advance (pauses : Bool) (s : ActiveSession) : Phase → Reply →
    Option (List SessionEvent × Option Phase)
  | .loop, .ok =>
    match s.queue with
    | [] => some ([], none)
    | prompt :: rest => some ([.queue rest.length], some (.starting prompt))
  | .starting prompt, .ok =>
    some ([.turnStart prompt], some (.ensuringToken ⟨prompt, false, false⟩))
  | .ensuringToken t, .ok => some ([], some (.calling t))
  | .ensuringToken t, .throws e => some ([], some (.failing t e.isCancelled))
  | .calling t, .ok => some ([.streamTurn t.prompt], some (.streaming t))
  | .streaming t, .frame none =>
    some ([.frame t.prompt], some (.streaming { t with streamed := true }))
  | .streaming t, .frame (some done) =>
    some ([.frame t.prompt], some (.terminal { t with streamed := true } done))
  | .streaming t, .eof => some ([.turnEnd t.prompt .error], some (.ended t.prompt false))
  | .streaming t, .throws e =>
    some ((caught (s.aborted.contains t.prompt) t e).1,
      some (caught (s.aborted.contains t.prompt) t e).2)
  | .terminal t done, .ok =>
    some ([.turnEnd t.prompt (if done then .done else .error)], some (.ended t.prompt false))
  | .reminting t, .ok => some ([], some (.ensuringToken t))
  | .reminting t, .throws e => some ([], some (.failing t e.isCancelled))
  | .sleeping t, .ok =>
    some ([], some (if s.aborted.contains t.prompt then .failing t true else .ensuringToken t))
  | .sleeping t, .throws e => some ([], some (.failing t e.isCancelled))
  | .failing t cancelled, .ok =>
    if s.aborted.contains t.prompt || cancelled then
      some ([.turnEnd t.prompt .cancelled], some (.ended t.prompt true))
    else some ([.turnEnd t.prompt .error], some (.ended t.prompt false))
  | .ended _ cancelled, .ok =>
    some ([], some (if cancelled && !s.queue.isEmpty && pauses then .paused else .loop))
  | .paused, .ok => some ([], some .loop)
  | _, _ => none

/-- The queue after a step: the loop takes its first prompt. -/
def queueAfter (s : ActiveSession) : Phase → List Prompt
  | .loop => s.queue.tail
  | _ => s.queue

/-- SRCLINE: session-manager.ts:152-153, 226 -/
def controllerAfter (s : ActiveSession) : Phase → Option Prompt
  | .starting prompt => some prompt
  | .ended prompt _ => if s.controller = some prompt then none else s.controller
  | _ => s.controller

def resume (pauses : Bool) (s : ActiveSession) (i : ℕ) (reply : Reply) : ActiveSession :=
  match s.threads[i]? with
  | none => s
  | some phase =>
    match s.advance pauses phase reply with
    | none => s
    | some (events, next) =>
      { s with
        queue := s.queueAfter phase
        controller := s.controllerAfter phase
        running := s.running && next.isSome
        threads := s.threads.take i ++ next.toList ++ s.threads.drop (i + 1)
        log := s.log ++ events }

/-! ## Calls -/

inductive Input where
  | submit (text : Units)
  | cancel
  | clearQueue
  | drain
  | resume (i : ℕ) (reply : Reply)

/-- SRCLINE: session-manager.ts:74-78 -/
def submit (s : ActiveSession) (text : Units) : ActiveSession :=
  { s with
    queue := s.queue ++ [⟨s.submitted.length, text⟩]
    submitted := s.submitted ++ [text]
    due := s.due + 1
    log := s.log ++ [.queue (s.queue.length + 1)] }

/-- SRCLINE: session-manager.ts:80-82 -/
def cancel (s : ActiveSession) : ActiveSession :=
  { s with aborted := s.aborted ++ s.controller.toList }

/-- The pause ends, which a thread that is paused may do at any time.
SRCLINE: session-manager.ts:84-88 -/
def clearQueue (s : ActiveSession) : ActiveSession :=
  { s with queue := [], log := s.log ++ [.queue 0] }

/-- SRCLINE: session-manager.ts:105-108 -/
def drain (s : ActiveSession) : ActiveSession :=
  if s.due = 0 then s
  else if s.running then { s with due := s.due - 1 }
  else { s with due := s.due - 1, running := true, threads := s.threads ++ [.loop] }

def step (pauses : Bool) (s : ActiveSession) : Input → ActiveSession
  | .submit text => s.submit text
  | .cancel => s.cancel
  | .clearQueue => s.clearQueue
  | .drain => s.drain
  | .resume i reply => s.resume pauses i reply

def run (pauses : Bool) (inputs : List Input) : ActiveSession := inputs.foldl (step pauses) .start

end ActiveSession

end ServerlessHarness.Mocactl
