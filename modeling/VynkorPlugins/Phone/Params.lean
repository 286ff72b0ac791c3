import VynkorPlugins.Base.Json
import VynkorPlugins.Base.Rust
import VynkorPlugins.Base.Shell

/-!
# The phone's camera: requests, errors and frames

The checks of the camera actions (`params.rs`), the errors (`error.rs`), and what is read from the output
of a helper (`framing.rs`).
-/

namespace Phone

inductive PhoneError
  | badParams (msg : String)
  | unreachable (msg : String)
  | busy (msg : String)
  | helperMissing (msg : String)
  | camera (msg : String)
  | backend (msg : String)
  deriving DecidableEq

def PhoneError.toString : PhoneError → String
  | .badParams msg => "ERR_PHONE_BAD_PARAMS: " ++ msg
  | .unreachable msg => "ERR_PHONE_UNREACHABLE: " ++ msg
  | .busy msg => "ERR_PHONE_BUSY: " ++ msg
  | .helperMissing msg => "ERR_PHONE_HELPER_MISSING: run phone_setup (" ++ msg ++ ")"
  | .camera msg => "ERR_PHONE_CAMERA: " ++ msg
  | .backend msg => "ERR_PHONE_BACKEND: " ++ msg

/-- The last `max` characters of a text. -/
def tail (s : String) (max : Nat) : String :=
  let t := (Rust.trim s).toList
  String.ofList (t.drop (t.length - max))

/-- The error of a remote command that has ended. -/
def classify (code : Int) (stderr : String) : PhoneError :=
  let t := tail stderr 400
  if code = 255 then .unreachable t
  else if code = -1 then
    .backend ("helper was killed by a signal (SIGSEGV/OOM); when the kernel runs on the phone, raise "
      ++ "this plugin's max_vmem_mb to at least 1024 " ++ t)
  else if Rust.contains stderr "No such file or directory" ∧ Rust.contains stderr "hybcam" then
    .helperMissing t
  else if Rust.contains stderr "connect FAILED" ∨ Rust.contains stderr "no frames" then .camera t
  else .backend ("exit " ++ ToString.toString code ++ ": " ++ t)

/-! ## Requests -/

inductive Camera
  | back
  | front
  deriving DecidableEq

def Camera.asStr : Camera → String
  | .back => "back"
  | .front => "front"

inductive Af
  | video
  | picture
  | auto
  | off

structure PhotoParams where
  camera : Camera
  width : Nat
  height : Nat
  af : Af
  flash : Bool
  quality : Nat

structure StreamParams extends PhotoParams where
  fps : Nat
  record : Bool
  max_duration_ms : Nat

/-- The sizes that the device has and that are allowed. -/
def SIZES : List (Nat × Nat) := [(1920, 1080), (1280, 720), (800, 600), (640, 480), (320, 240)]

def DEFAULT_SIZE : Nat × Nat := (1280, 720)

def MAX_DURATION_CAP_MS : Nat := 1800000

def DEFAULT_DURATION_MS : Nat := 300000

section

variable (m : Json)

/-- Null is taken for an object without fields. -/
def object (v : Json) (allowed : List String) : Except PhoneError Json :=
  match v with
  | .null => .ok (.obj [])
  | .obj fs =>
    match fs.find? fun f => !allowed.contains f.1 with
    | some f => .error (.badParams ("unknown parameter '" ++ f.1 ++ "'"))
    | none => .ok (.obj fs)
  | _ => .error (.badParams "params must be a JSON object")

def camera : Except PhoneError Camera :=
  match m.get "camera" with
  | none => .ok .back
  | some (.str "back") => .ok .back
  | some (.str "front") => .ok .front
  | some _ => .error (.badParams "camera must be 'back' or 'front'")

def af : Except PhoneError Af :=
  match m.get "af" with
  | none => .ok .video
  | some (.str "video") => .ok .video
  | some (.str "picture") => .ok .picture
  | some (.str "auto") => .ok .auto
  | some (.str "off") => .ok .off
  | some (.str _) => .error (.badParams "af must be one of video|picture|auto|off")
  | some _ => .error (.badParams "af must be a string")

def boolean (key : String) : Except PhoneError Bool :=
  match m.get key with
  | none => .ok false
  | some (.bool b) => .ok b
  | some _ => .error (.badParams (key ++ " must be a boolean"))

def intIn (key : String) (min max default : Nat) : Except PhoneError Nat :=
  match m.get key with
  | none => .ok default
  | some v =>
    match v.asU64 with
    | none => .error (.badParams (key ++ " must be a non-negative integer"))
    | some n =>
      if n < min ∨ max < n then
        .error (.badParams (key ++ " must be within " ++ toString min ++ "..=" ++ toString max))
      else .ok n

def size : Except PhoneError (Nat × Nat) :=
  match m.get "width", m.get "height" with
  | none, none => .ok DEFAULT_SIZE
  | some w, some h =>
    match w.asU64, h.asU64 with
    | none, _ => .error (.badParams "width must be an integer")
    | some _, none => .error (.badParams "height must be an integer")
    | some w, some h =>
      if (w, h) ∈ SIZES then .ok (w, h)
      else
        .error (.badParams (toString w ++ "x" ++ toString h
          ++ " is not a supported size (see plugin.json)"))
  | _, _ => .error (.badParams "width and height must be given together")

end

def PhotoParams.parse (v : Json) : Except PhoneError PhotoParams := do
  let m ← object v ["camera", "width", "height", "af", "flash", "quality"]
  let (width, height) ← size m
  let camera ← Phone.camera m
  let af ← Phone.af m
  let flash ← boolean m "flash"
  let quality ← intIn m "quality" 30 95 80
  return { camera, width, height, af, flash, quality }

def StreamParams.parse (v : Json) : Except PhoneError StreamParams := do
  let m ← object v ["camera", "width", "height", "fps", "quality", "af", "flash", "record",
    "max_duration_ms"]
  let (width, height) ← size m
  let camera ← Phone.camera m
  let fps ← intIn m "fps" 1 30 15
  let quality ← intIn m "quality" 30 95 80
  let af ← Phone.af m
  let flash ← boolean m "flash"
  let record ← boolean m "record"
  let max_duration_ms ← intIn m "max_duration_ms" 1000 MAX_DURATION_CAP_MS DEFAULT_DURATION_MS
  return { camera, width, height, fps, quality, af, flash, record, max_duration_ms }

/-- The parameters of `phone_stream_stop`. -/
def parseStreamId (v : Json) : Except PhoneError (Option String) := do
  let m ← object v ["stream_id"]
  match m.get "stream_id" with
  | none => return none
  | some (.str s) =>
    if s = "" ∨ 64 < s.utf8ByteSize then
      .error (.badParams "stream_id must be a non-empty string (<= 64 bytes)")
    else return some s
  | some _ => .error (.badParams "stream_id must be a non-empty string (<= 64 bytes)")

/-! ## Frames -/

def MAX_FRAME : Nat := 8 * 1024 * 1024

/-- The mark of a start at the front and that of an end at the back. -/
def isJpeg (b : List UInt8) : Bool :=
  4 ≤ b.length ∧ b.take 2 = [0xff, 0xd8] ∧ b.drop (b.length - 2) = [0xff, 0xd9]

/-- The next frame of an output that has ended. -/
def readFrame : List UInt8 → Except PhoneError (Option (List UInt8))
  | [] => .ok none
  | a :: b :: c :: d :: body =>
    let len := ((a.toNat * 256 + b.toNat) * 256 + c.toNat) * 256 + d.toNat
    if len = 0 then .error (.camera "zero-length frame")
    else if MAX_FRAME < len then
      .error (.camera ("frame length " ++ toString len ++ " exceeds cap " ++ toString MAX_FRAME))
    else if body.length < len then .error (.camera "truncated frame body: early eof")
    else .ok (some (body.take len))
  | _ => .error (.camera "truncated frame header")

end Phone

/-!
## Remote commands

A command for the phone is data, and only `to_shell` writes it for a remote shell (`remote.rs`).
-/

namespace Phone

structure RemoteCmd where
  env : List (String × String) := []
  program : String
  args : List String
  in_home : Bool := false

/-- `'` becomes `'\''`. -/
def shell_quote (s : String) : String :=
  "'" ++ String.ofList (Rust.replaceChar '\'' "'\\''".toList s.toList) ++ "'"

def valid_env_key (k : String) : Bool :=
  match k.toList with
  | [] => false
  | c :: cs => (c.isUpper || c = '_') && cs.all fun c => c.isUpper || c.isDigit || c = '_'

def has_nul (s : String) : Bool := s.toList.contains (Char.ofNat 0)

/-- The assignments before a command. -/
def render_env : List (String × String) → Except PhoneError String
  | [] => .ok ""
  | (k, v) :: env => do
    Rust.reject (valid_env_key k = false) (.badParams ("invalid env name '" ++ k ++ "'"))
    let rest ← render_env env
    return k ++ "=" ++ shell_quote v ++ " " ++ rest

def render_args : List String → String
  | [] => ""
  | a :: args => " " ++ shell_quote a ++ render_args args

/-- `[cd "$HOME" && ]K='v' … 'prog' 'a' 'b'` -/
def RemoteCmd.to_shell (cmd : RemoteCmd) : Except PhoneError String := do
  Rust.reject (has_nul cmd.program ∨ cmd.args.any has_nul ∨ cmd.env.any fun (_, v) => has_nul v)
    (.badParams "NUL byte in remote command")
  let env ← render_env cmd.env
  return (if cmd.in_home then "cd \"$HOME\" && " else "") ++ env ++ shell_quote cmd.program ++
    render_args cmd.args

end Phone
