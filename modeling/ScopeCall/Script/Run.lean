import ScopeCall.Script.Operation.Call
import ScopeCall.Script.Operation.Environment
import ScopeCall.Script.Operation.Plain

/-!
# `ScopeCall.Script.Run` — running scripts

Bodies run on an explicit stack of frames: a step that makes a call is left waiting in the frame of its
body, and is completed when the frame of the callee has come to its end. So calls nest as deeply as
call sites allow.

## Contents
- **One operation.** `performOperation`.
- **Completing a step.** Keeping its object, logging it, and letting go of what it held.
- **Frames.** `advance` runs one step of the innermost body; `runFrames` goes on until the call that
  was made at top level has come to its end.
- **Scripts.** `runScript`.
-/

namespace ScopeCall.Script

/-! ## One operation -/

/-- Performs an operation other than forgetting a register. -/
def performOperation : Operation → OpM Outcome
  | .value op      => op.run
  | .guard op      => op.run
  | .layout op     => op.run
  | .activation op => op.run
  | .lookup op     => op.run
  | .context op    => op.run
  | .callable op   => op.run
  | .site op       => op.run
  | .argument op   => op.run
  | .invocation op => op.run
  | .drop _ | .malformed => throw .unusable

/-! ## Completing a step -/

/-- A body that is running. -/
structure Frame where
  entry : Entry
  locals : Registers := []
  /-- The steps still to run. -/
  steps : List Step
  /-- What to do with the outcome of the step that made this call. -/
  options : Options
  /-- What was held before the step that made this call. -/
  mark : List Ref
deriving Inhabited

def Frame.place (f : Frame) : Place := { entry := some f.entry, locals := f.locals }

/-- The place of the innermost running body. -/
def placeOf : List Frame → Place
  | []     => {}
  | f :: _ => f.place

/-- The state of a session with calls in progress, the innermost first. -/
structure State where
  machine : Machine Session
  frames : List Frame := []

namespace State

def changeStore (st : State) (f : Store → Store) : State :=
  { st with machine := { st.machine with store := f st.machine.store } }

def changeSession (st : State) (f : Session → Session) : State :=
  { st with machine := { st.machine with host := f st.machine.host } }

/-- Changes the registers that `r` belongs to. -/
def changeRegisters (st : State) (r : Register) (f : Registers → Registers) : State :=
  if isLocal r then
    match st.frames with
    | []              => st.changeSession fun s => { s with topLocals := f s.topLocals }
    | frame :: frames => { st with frames := { frame with locals := f frame.locals } :: frames }
  else
    st.changeSession fun s => { s with registers := f s.registers }

/-- Keeps an object in a register; what the register held before is given up afterwards. -/
def save (st : State) (r : Register) (o : Object) : State :=
  let old := (placeOf st.frames).find? st.machine.host r
  let st := (st.changeStore (takeUp o)).changeRegisters r (·.set r o)
  match old with
  | some old => st.changeStore (giveUp old)
  | none     => st

/-- Keeps the object of an answer in a register, if there is one to keep it; gives the report. The
    reserved registers keep nothing. -/
def settle (st : State) (save : Option Register) (a : Answer) : Report × State :=
  let register := save.filter fun r => !isReserved r
  match a with
  | .made report object =>
    match register, object with
    | some r, some o => (report, st.save r o)
    | _, _           => (report, st)
  | .entered previous =>
    let st := match register with
      | some r => st.save r (.scope previous)
      | none   => st.changeStore (·.leaveContext previous)
    (.nat st.machine.store.contexts.current, st)

/-- Lets go of what a step held. -/
def letGo (st : State) (mark : List Ref) : State :=
  st.changeStore fun s => { s with stack := mark }

/-- Adds an entry to the log. -/
def enter (st : State) (options : Options) (entry : List (String × Report)) : State :=
  if options.logged then
    st.changeSession fun s => { s with log := s.log.push (.record entry) }
  else st

end State

/-- The answer of a step, or why it failed. -/
abbrev Result := Except Failure Answer

/-- What the innermost body does next: go on, or end with a value or an error. -/
inductive Control where
  | go
  | leave (outcome : Except EvalError Value)

/-- Completes a step of a body. A failure ends the body, unless the step tolerates it; it is logged as
    the failure that it was in the step itself. -/
def completeInBody (st : State) (options : Options) (mark : List Ref) (r : Result) :
    State × Control :=
  match r with
  | .ok answer =>
    let (report, st) := st.settle options.save answer
    ((st.enter options [("r", report)]).letGo mark, .go)
  | .error e =>
    let st := (st.enter options e.report).letGo mark
    (st, if options.tolerant then .go else .leave (.error e.toError))

/-- The answer of a call that came to its end: its value. -/
def callResult (s : Store) : Except EvalError Value → Result
  | .ok v    => .ok (.made (s.reportValue v) (some (.value v)))
  | .error e => .error (.error e)

/-! ## Frames -/

/-- The body of a call that is ready to run. -/
def bodyOf (m : Machine Session) (entry : Entry) : List Step :=
  let body := match entry with
    | .closure t _    => (m.store.target t).body
    | .intrinsic b _  => b
  m.host.bodies[body.index]?.getD []

/-- Starts a call. -/
def State.push (st : State) (entry : Entry) (options : Options) (mark : List Ref) : State :=
  let st := st.changeStore (·.hold entry.refs)
  { st with frames := { entry, steps := bodyOf st.machine entry, options, mark } :: st.frames }

/-- Runs an operation at the place of the innermost body. -/
def State.perform {α : Type} (st : State) (act : OpM α) : Except Failure α × State :=
  let (r, machine) := ((act.run (placeOf st.frames)).run).run st.machine
  (r, { st with machine })

/-- Forgets a register; answers whether it was set. The reserved ones are never set by a step. -/
def State.drop (st : State) (r : Register) : Bool × State :=
  if isReserved r then (false, st)
  else
    match (placeOf st.frames).find? st.machine.host r with
    | none   => (false, st)
    | some o => (true, (st.changeRegisters r (·.erase r)).changeStore (giveUp o))

/-- Runs a step that may stand anywhere; nothing for one that may stand in bodies only. -/
def State.run? (st : State) : Step → Option ((Except Failure Outcome × State) × Options)
  | .perform (.drop r) options =>
    let (wasSet, st) := st.drop r
    some ((.ok (.done (.flag wasSet)), st), options)
  | .perform op options => some (st.perform (performOperation op), options)
  | .define f body options => some (st.perform (defineFunction f body), options)
  | _ => none

/-- Ends the innermost body, and completes the step that called it if that step is in a body. -/
def endFrame (st : State) (outcome : Except EvalError Value) : State × Control :=
  match st.frames with
  | [] => (st, .leave outcome)
  | f :: frames =>
    let locals := f.locals.mergeSort fun a b => a.1 ≤ b.1
    let st := locals.foldl (fun st l => st.changeStore (giveUp l.2)) { st with frames }
    let st := st.letGo f.mark
    let st := match outcome with
      | .ok v    => st.changeStore (·.hold v.refs)
      | .error _ => st
    match frames with
    | []     => (st, .leave outcome)
    | _ :: _ => completeInBody st f.options f.mark (callResult st.machine.store outcome)

/-- Runs one step of the innermost body. -/
def advance (st : State) (f : Frame) (frames : List Frame) : State × Control :=
  let mark := st.machine.store.stack
  match f.steps with
  | [] => (st, .leave (.ok .null))
  | step :: rest =>
    let st := { st with frames := { f with steps := rest } :: frames }
    match step with
    | .give e =>
      match st.perform (OpM.eval e) with
      | (.ok v, st)    => (st, .leave (.ok v))
      | (.error e, st) => (st, .leave (.error e.toError))
    | .choose cond yes no =>
      match st.perform (OpM.eval cond) with
      | (.ok v, st) =>
        let branch := if v = .bool true then yes else no
        ({ st with frames := { f with steps := branch ++ rest } :: frames }.letGo mark, .go)
      | (.error e, st) => (st, .leave (.error e.toError))
    | step =>
      match st.run? step with
      | none => (st, .leave (.error Failure.unusable.toError))
      | some ((.ok (.answer a), st), options) => completeInBody st options mark (.ok a)
      | some ((.ok (.call entry), st), options) => (st.push entry options mark, .go)
      | some ((.error e, st), options) => completeInBody st options mark (.error e)

/-- Runs the bodies in progress until the outermost has come to its end, at most so many steps. -/
def runFrames : Nat → Control → State → Except EvalError Value × State
  | 0, _, st => (.error (.custom "out of steps"), { st with frames := [] })
  | n + 1, control, st =>
    match control, st.frames with
    | .leave outcome, []  => (outcome, st)
    | .go,            []  => (.ok .null, st)
    | .leave outcome, _   =>
      let (st, control) := endFrame st outcome
      runFrames n control st
    | .go, f :: frames    =>
      let (st, control) := advance st f frames
      runFrames n control st

/-! ## Scripts -/

/-- More steps than any script that ends in reasonable time takes. -/
def stepLimit : Nat := 1000000000000

/-- Runs the call that a step at top level came to, if any. -/
def finishTop (options : Options) : Except Failure Outcome × State → Result × State
  | (.ok (.answer a), st)   => (.ok a, st)
  | (.error e, st)          => (.error e, st)
  | (.ok (.call entry), st) =>
    let (outcome, st) := runFrames stepLimit .go (st.push entry options st.machine.store.stack)
    (callResult st.machine.store outcome, st)

/-- Runs one step at top level; answers its entry. -/
def runStep (st : State) (step : Step) : Report × State :=
  let st := st.changeSession fun s => { s with log := #[] }
  let ((r, st), options) := match st.run? step with
    | some (r, options) => (finishTop options r, options)
    | none              => ((.error .unusable, st), {})
  let (fields, st) := match r with
    | .ok answer =>
      let (report, st) := st.settle options.save answer
      ([("r", report)], st)
    | .error e => (e.report, st)
  let log := st.machine.host.log
  let logged := if log.isEmpty then [] else [("log", Report.list log.toList)]
  (.record (fields ++ logged), st.letGo [])

/-- Runs steps in order. -/
def runSteps : State → List Step → List Report
  | _,  []            => []
  | st, step :: steps =>
    let (r, st) := runStep st step
    r :: runSteps st steps

/-- Runs a script in an empty store in which `names` are interned; answers an entry per step. -/
def runScript (names : List String) (steps : List Step) : List Report :=
  runSteps { machine := { store := .new names, host := {} } } steps

end ScopeCall.Script
