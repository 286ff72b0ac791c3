import Mathlib.Logic.Function.Basic
import VynkorPlugins.Base.Transition
import VynkorPlugins.Phone.Params

/-!
# The phone's camera: tasks and helpers

Each request runs in a task of its own. `inner` is the lock of the registered stream, `camera` the one that
serializes the camera. A helper is the program that uses the camera; its child process is the helper itself
or the `ssh` that has started it.
-/

namespace Phone

open Transition

inductive HelperKind
  | photo
  | stream
  deriving DecidableEq

/-- A helper that has been started, its child process, and what the task that reads its frames has noted. -/
structure Helper where
  kind : HelperKind
  running : Bool := true
  child : Bool := true
  /-- The child has been dropped: it is killed, but nobody waits for its end. -/
  dropped : Bool := false
  stderr : String := ""
  frames : Nat := 0
  done : Bool := false

/-- A helper runs on although its task waits for it no more, or its child has ended. -/
def Helper.stray (helper : Helper) : Bool :=
  helper.running && (helper.dropped || !helper.child)

/-- A registered stream. -/
structure Active where
  id : String
  camera : Camera
  width : Nat
  height : Nat
  helper : Nat
  record_path : Option String

/-- What asks whether a stream is running before it goes on. -/
inductive Use
  | status
  | photo (p : PhotoParams)
  | start (p : StreamParams)

/-- A request whose parameters have been parsed. -/
inductive Call
  | use (use : Use)
  | stop (id : Option String)
  | streamStatus

inductive Source
  | stream
  | camera

structure StreamStatus where
  active : Bool
  stream : Active
  frames : Nat
  error : Option String := none

inductive Reply
  | status (stream_active : Bool)
  | photo (p : PhotoParams) (source : Source) (bytes : Nat)
  | started (stream : Active)
  | stopped (stopped : Bool) (frames : Nat) (record_path : Option String) (error : Option String)
  | streamStatus (status : Option StreamStatus)

structure Output where
  code : Int
  stdout : List UInt8
  stderr : String

/-- How far the task of a request is. -/
inductive Task
  | received (action : String) (params : Json)
  /-- Waits for the lock of the registered stream. -/
  | inner (call : Call)
  | locked (call : Call)
  | reaping (use : Use) (helper : Nat)
  /-- Copies the newest frame of the stream. -/
  | copy (p : PhotoParams)
  /-- Waits for the camera. -/
  | camera (p : PhotoParams)
  | snap (p : PhotoParams)
  | snapping (p : PhotoParams) (helper : Nat)
  | spawn (p : StreamParams)
  | register (p : StreamParams) (helper : Nat)
  | stopping (stream : Active)
  | joining (stream : Active) (stderr : String)
  | explain (stream : Active)
  | ending (status : StreamStatus) (helper : Nat)
  | answered (result : Except PhoneError Reply)

structure World where
  /-- The helpers run on another device. -/
  ssh : Bool
  inner : Option Nat := none
  camera : Option Nat := none
  slot : Option Active := none
  helpers : List Helper := []
  tasks : Nat → Task

/-- A step of a task, or of a helper. -/
inductive Label
  | begin (i : Nat) (dir : Option PhoneError)
  | lockInner (i : Nat)
  | look (i : Nat)
  | reaped (i : Nat)
  | copied (i : Nat) (bytes : Except PhoneError Nat)
  | lockCamera (i : Nat)
  | snap (i : Nat) (failure : Option PhoneError)
  | snapped (i : Nat) (out : Output) (write : Option PhoneError)
  /-- The time is up, or the child cannot be waited for. -/
  | giveUp (i : Nat) (error : PhoneError)
  | spawn (i : Nat) (failure : Option PhoneError)
  | register (i ms : Nat)
  | killed (i : Nat)
  | joined (i : Nat)
  | explained (i : Nat) (code : Option Int)
  | ended (i : Nat)
  | frame (h : Nat)
  | stderr (h : Nat) (text : String)
  | pumpEnded (h : Nat)
  /-- The child has ended. Only a helper on another device can go on without it. -/
  | childExit (h : Nat) (outlived : Bool)
  | helperExit (h : Nat)

/-- What the helper of a photo has made of it. -/
def photoResult (p : PhotoParams) (out : Output) (write : Option PhoneError) :
    Except PhoneError Reply :=
  if out.code ≠ 0 then .error (classify out.code out.stderr)
  else
    match readFrame out.stdout with
    | .error e => .error e
    | .ok none => .error (.camera "helper exited without a frame")
    | .ok (some frame) =>
      if isJpeg frame then
        match write with
        | some e => .error e
        | none => .ok (.photo p .camera frame.length)
      else .error (.camera "helper returned bytes that are not a JPEG")

/-- The action of a request and its parameters. -/
def dispatch (action : String) (params : Json) : Except PhoneError Call :=
  match action with
  | "phone_status" => .ok (.use .status)
  | "phone_photo" => (PhotoParams.parse params).map fun p => .use (.photo p)
  | "phone_stream_start" => (StreamParams.parse params).map fun p => .use (.start p)
  | "phone_stream_stop" => (parseStreamId params).map .stop
  | "phone_stream_status" => .ok .streamStatus
  | other => .error (.badParams ("unknown action: " ++ other))

namespace World

def goto (s : World) (i : Nat) (task : Task) : World :=
  { s with tasks := Function.update s.tasks i task }

/-- A task returns. The guards that it holds are dropped. -/
def answer (s : World) (i : Nat) (result : Except PhoneError Reply) : World :=
  { s with
    inner := s.inner.filter (· ≠ i)
    camera := s.camera.filter (· ≠ i)
    tasks := Function.update s.tasks i (.answered result) }

def unlockInner (s : World) (i : Nat) : World :=
  { s with inner := s.inner.filter (· ≠ i) }

def takeInner (s : World) (i : Nat) : World :=
  { s with inner := some i }

def takeCamera (s : World) (i : Nat) : World :=
  { s with camera := some i }

/-- The registered stream is taken out. -/
def takeSlot (s : World) : World :=
  { s with slot := none }

def addHelper (s : World) (kind : HelperKind) : World :=
  { s with helpers := s.helpers ++ [{ kind }] }

def setHelper (s : World) (h : Nat) (helper : Helper) : World :=
  { s with helpers := s.helpers.set h helper }

/-- The task that reads the frames of a stream has ended. -/
def finished (s : World) (a : Active) : Bool :=
  (s.helpers[a.helper]?).any Helper.done

def childEnded (s : World) (h : Nat) : Bool :=
  (s.helpers[h]?).all fun helper => !helper.child

def stderr (s : World) (h : Nat) : String :=
  ((s.helpers[h]?).map Helper.stderr).getD ""

def frames (s : World) (h : Nat) : Nat :=
  ((s.helpers[h]?).map Helper.frames).getD 0

/-- `active_camera` and `start`, once a finished stream has been reaped. -/
def decideOn (s : World) (i : Nat) : Use → World
  | .photo p =>
    match s.slot with
    | some a =>
      if a.camera = p.camera then (s.unlockInner i).goto i (.copy p)
      else
        s.answer i (.error (.busy ("a " ++ a.camera.asStr ++ " stream owns the camera; stop it or ask for "
          ++ "the " ++ a.camera.asStr ++ " camera")))
    | none => (s.unlockInner i).goto i (.camera p)
  | .start p =>
    match s.slot with
    | some a => s.answer i (.error (.busy ("stream " ++ a.id ++ " is already running (stop it first)")))
    | none =>
      if s.camera.isSome then s.answer i (.error (.busy "a photo is being taken right now"))
      else (s.takeCamera i).goto i (.spawn p)
  | .status => s.answer i (.ok (.status s.slot.isSome))

/-- A finished stream is killed before the task goes on. -/
def reap (s : World) (i : Nat) (use : Use) : World :=
  match s.slot with
  | some a => if s.finished a then s.takeSlot.goto i (.reaping use a.helper) else s.decideOn i use
  | none => s.decideOn i use

def stop (s : World) (i : Nat) (id : Option String) : World :=
  match s.slot with
  | none => s.answer i (.ok (.stopped false 0 none none))
  | some a =>
    match id with
    | none => s.takeSlot.goto i (.stopping a)
    | some want =>
      if want = a.id then s.takeSlot.goto i (.stopping a)
      else
        s.answer i (.error (.badParams ("no such stream '" ++ want ++ "' (active: " ++ a.id ++ ")")))

/-- The status is answered, after a finished stream has been killed. -/
def reapStatus (s : World) (i : Nat) (status : StreamStatus) : World :=
  match s.slot with
  | some a =>
    if s.finished a then s.takeSlot.goto i (.ending status a.helper)
    else s.answer i (.ok (.streamStatus (some status)))
  | none => s.answer i (.ok (.streamStatus (some status)))

def streamStatus (s : World) (i : Nat) : World :=
  match s.slot with
  | none => s.answer i (.ok (.streamStatus none))
  | some a =>
    let status : StreamStatus := { active := !s.finished a, stream := a, frames := s.frames a.helper }
    if s.finished a then
      if s.frames a.helper = 0 then s.goto i (.explain a) else s.reapStatus i status
    else s.answer i (.ok (.streamStatus (some status)))

/-- The lock of the registered stream has been taken. -/
def look (s : World) (i : Nat) : Call → World
  | .stop id => s.stop i id
  | .streamStatus => s.streamStatus i
  | .use use => s.reap i use

def begin (s : World) (i : Nat) (action : String) (params : Json) (dir : Option PhoneError) : World :=
  match dispatch action params with
  | .error e => s.answer i (.error e)
  | .ok (.use (.photo p)) =>
    match dir with
    | some e => s.answer i (.error e)
    | none => s.goto i (.inner (.use (.photo p)))
  | .ok call => s.goto i (.inner call)

def register (s : World) (i : Nat) (p : StreamParams) (h ms : Nat) : World :=
  let stream : Active :=
    { id := "s-" ++ toString ms
      camera := p.camera
      width := p.width
      height := p.height
      helper := h
      record_path := if p.record then some ("record-" ++ toString ms ++ ".mjpg") else none }
  { s with slot := some stream }.answer i (.ok (.started stream))

def joined (s : World) (i : Nat) (a : Active) (stderr : String) : World :=
  let frames := s.frames a.helper
  s.answer i (.ok (.stopped true frames a.record_path
    (if frames = 0 ∧ Rust.trim stderr ≠ "" then some (classify 1 stderr).toString else none)))

def step (s : World) : Label → Option World
  | .begin i dir =>
    match s.tasks i with
    | .received action params => some (s.begin i action params dir)
    | _ => none
  | .lockInner i =>
    match s.tasks i, s.inner with
    | .inner call, none => some ((s.takeInner i).goto i (.locked call))
    | _, _ => none
  | .look i =>
    match s.tasks i with
    | .locked call => some (s.look i call)
    | _ => none
  | .reaped i =>
    match s.tasks i with
    | .reaping use h => if s.childEnded h then some (s.decideOn i use) else none
    | _ => none
  | .copied i bytes =>
    match s.tasks i with
    | .copy p => some (s.answer i (bytes.map fun n => .photo p .stream n))
    | _ => none
  | .lockCamera i =>
    match s.tasks i, s.camera with
    | .camera p, none => some ((s.takeCamera i).goto i (.snap p))
    | _, _ => none
  | .snap i failure =>
    match s.tasks i with
    | .snap p =>
      match failure with
      | some e => some (s.answer i (.error e))
      | none => some ((s.addHelper .photo).goto i (.snapping p s.helpers.length))
    | _ => none
  | .snapped i out write =>
    match s.tasks i with
    | .snapping p h => if s.childEnded h then some (s.answer i (photoResult p out write)) else none
    | _ => none
  | .giveUp i e =>
    match s.tasks i with
    | .snapping _ h =>
      (s.helpers[h]?).map fun helper => (s.setHelper h { helper with dropped := true }).answer i (.error e)
    | _ => none
  | .spawn i failure =>
    match s.tasks i with
    | .spawn p =>
      match failure with
      | some e => some (s.answer i (.error e))
      | none => some ((s.addHelper .stream).goto i (.register p s.helpers.length))
    | _ => none
  | .register i ms =>
    match s.tasks i with
    | .register p h => some (s.register i p h ms)
    | _ => none
  | .killed i =>
    match s.tasks i with
    | .stopping a => if s.childEnded a.helper then some (s.goto i (.joining a (s.stderr a.helper))) else none
    | _ => none
  | .joined i =>
    match s.tasks i with
    | .joining a stderr => some (s.joined i a stderr)
    | _ => none
  | .explained i code =>
    match s.tasks i with
    | .explain a =>
      if s.childEnded a.helper then
        let error := (classify (code.getD (-1)) (s.stderr a.helper)).toString
        some (s.reapStatus i { active := false, stream := a, frames := 0, error := some error })
      else none
    | _ => none
  | .ended i =>
    match s.tasks i with
    | .ending status h =>
      if s.childEnded h then some (s.answer i (.ok (.streamStatus (some status)))) else none
    | _ => none
  | .frame h =>
    (s.helpers[h]?).bind fun helper =>
      if helper.done then none else some (s.setHelper h { helper with frames := helper.frames + 1 })
  | .stderr h text =>
    (s.helpers[h]?).map fun helper => s.setHelper h { helper with stderr := helper.stderr ++ text }
  | .pumpEnded h => (s.helpers[h]?).map fun helper => s.setHelper h { helper with done := true }
  | .childExit h outlived =>
    (s.helpers[h]?).map fun helper =>
      s.setHelper h { helper with child := false, running := helper.running && outlived && s.ssh }
  | .helperExit h => (s.helpers[h]?).map fun helper => s.setHelper h { helper with running := false }

/-- The plugin starts without a stream. -/
def initial (ssh : Bool) (requests : Nat → String × Json) : World :=
  { ssh, tasks := fun i => .received (requests i).1 (requests i).2 }

/-- No photo gets the camera while the helper of a stream runs, and no helper is started while one runs
    that nobody waits for. -/
def orderly (s : World) : Label → Bool
  | .lockCamera _ => s.helpers.all fun helper => helper.kind = .photo || !helper.running
  | .snap _ none | .spawn _ none => s.helpers.all fun helper => !helper.stray
  | _ => true

end World

end Phone
