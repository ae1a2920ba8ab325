import N8n.Lib.Lts

/-!
# Main instances and their leader

`packages/cli/src/scaling/multi-main-setup.ee.ts`: the leader is the main instance whose id Redis
holds under the leader key, which expires unless it is renewed.

* `MultiMainSetup`: the leader key, and each instance with its calls under way;
* `MultiMainSetup.Event`, `MultiMainSetup.step`: a call is sent, executed by Redis and answered, each
  in a step of its own.
-/

namespace N8n

inductive MultiMainEvent
  | leaderStepdown
  | leaderTakeover
  deriving DecidableEq

/-- Where a call stands: a command has been sent to Redis, or its reply is under way. -/
inductive LeaderStage (H : Type*)
  | getting
  | got (leaderId : Option H)
  | settingIfNotExists
  | setIfNotExists (keySetSuccessfully : Bool)
  | settingExpiration
  | setExpiration
  | clearing
  | cleared
  | returned

/-- A call of `init`, of `checkLeader` or of `shutdown`. -/
structure LeaderCall (H : Type*) where
  hostId : H
  isInit : Bool := false
  stage : LeaderStage H

structure MultiMainSetup (H : Type*) where
  leaderKey : Option H := none
  isLeader : H → Bool := fun _ => false
  /-- The events that each instance has emitted. -/
  emitted : H → List MultiMainEvent := fun _ => []
  /-- `init` has been called. -/
  initialized : H → Bool := fun _ => false
  /-- `leaderCheckInterval` is running. -/
  interval : H → Bool := fun _ => false
  calls : ℕ → Option (LeaderCall H) := fun _ => none
  nextCall : ℕ := 0

namespace MultiMainSetup

variable {H : Type*} [DecidableEq H]

/-! ### Instances -/

def markAsLeader (s : MultiMainSetup H) (h : H) : MultiMainSetup H :=
  { s with isLeader := Function.update s.isLeader h true }

def markAsFollower (s : MultiMainSetup H) (h : H) : MultiMainSetup H :=
  { s with isLeader := Function.update s.isLeader h false }

def emit (s : MultiMainSetup H) (h : H) (e : MultiMainEvent) : MultiMainSetup H :=
  { s with emitted := Function.update s.emitted h (s.emitted h ++ [e]) }

omit [DecidableEq H] in
/-- The call sends a command, or gets an answer. -/
def setStage (s : MultiMainSetup H) (c : ℕ) (call : LeaderCall H) (stage : LeaderStage H) :
    MultiMainSetup H :=
  { s with calls := Function.update s.calls c (some { call with stage }) }

omit [DecidableEq H] in
def newCall (s : MultiMainSetup H) (call : LeaderCall H) : MultiMainSetup H :=
  { s with calls := Function.update s.calls s.nextCall (some call), nextCall := s.nextCall + 1 }

/-! ### Calls -/

/-- `init` up to its command, in `tryBecomeLeader`. -/
def init (s : MultiMainSetup H) (h : H) : MultiMainSetup H :=
  { s with initialized := Function.update s.initialized h true }.newCall
    { hostId := h, isInit := true, stage := .settingIfNotExists }

def shutdown (s : MultiMainSetup H) (h : H) : MultiMainSetup H :=
  let s := { s with interval := Function.update s.interval h false }
  if s.isLeader h then s.newCall { hostId := h, stage := .clearing } else s

/-- `checkLeader` goes on after `publisher.get`. -/
def checkLeader (s : MultiMainSetup H) (c : ℕ) (call : LeaderCall H) :
    Option H → MultiMainSetup H
  | some leaderId =>
    if leaderId = call.hostId then
      let s := if s.isLeader call.hostId then s
        else (s.markAsLeader call.hostId).emit call.hostId .leaderTakeover
      s.setStage c call .settingExpiration
    else
      let s := if s.isLeader call.hostId then
        (s.markAsFollower call.hostId).emit call.hostId .leaderStepdown else s
      s.setStage c call .returned
  | none =>
    ((s.markAsFollower call.hostId).emit call.hostId .leaderStepdown).setStage c call
      .settingIfNotExists

/-- `tryBecomeLeader` goes on after `publisher.setIfNotExists`; `init` then sets the interval. -/
def tryBecomeLeader (s : MultiMainSetup H) (c : ℕ) (call : LeaderCall H)
    (keySetSuccessfully : Bool) : MultiMainSetup H :=
  let s := if keySetSuccessfully then
    (s.markAsLeader call.hostId).emit call.hostId .leaderTakeover else s.markAsFollower call.hostId
  let s := if call.isInit then
    { s with interval := Function.update s.interval call.hostId true } else s
  s.setStage c call .returned

/-! ### Redis -/

omit [DecidableEq H] in
/-- Redis executes the command of a call. -/
def execute (s : MultiMainSetup H) (c : ℕ) (call : LeaderCall H) : MultiMainSetup H :=
  match call.stage with
  | .getting => s.setStage c call (.got s.leaderKey)
  | .settingIfNotExists =>
    match s.leaderKey with
    | none => { s.setStage c call (.setIfNotExists true) with leaderKey := some call.hostId }
    | some _ => s.setStage c call (.setIfNotExists false)
  | .settingExpiration => s.setStage c call .setExpiration
  | .clearing => { s.setStage c call .cleared with leaderKey := none }
  | _ => s

/-- A call goes on with its reply. -/
def reply (s : MultiMainSetup H) (c : ℕ) (call : LeaderCall H) : MultiMainSetup H :=
  match call.stage with
  | .got leaderId => s.checkLeader c call leaderId
  | .setIfNotExists keySetSuccessfully => s.tryBecomeLeader c call keySetSuccessfully
  | .setExpiration => s.setStage c call .returned
  | .cleared => s.setStage c call .returned
  | _ => s

/-! ### Runs -/

inductive Event (H : Type*)
  | init (hostId : H)
  /-- The interval of an instance fires. -/
  | checkLeader (hostId : H)
  | shutdown (hostId : H)
  | execute (call : ℕ)
  | reply (call : ℕ)
  /-- The leader key expires. -/
  | expire

/-- What an event does; one that cannot happen changes nothing. -/
def step (s : MultiMainSetup H) : Event H → MultiMainSetup H
  | .init h => if s.initialized h then s else s.init h
  | .checkLeader h =>
    if s.interval h then s.newCall { hostId := h, stage := .getting } else s
  | .shutdown h => s.shutdown h
  | .execute c =>
    match s.calls c with
    | some call => s.execute c call
    | none => s
  | .reply c =>
    match s.calls c with
    | some call => s.reply c call
    | none => s
  | .expire => { s with leaderKey := none }

end MultiMainSetup

end N8n
