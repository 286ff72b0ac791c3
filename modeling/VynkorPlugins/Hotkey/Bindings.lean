import VynkorPlugins.Base.Rust

/-!
# Bindings

The triggers of the `hotkey` plugin and how they are normalized, and the store of the bindings
(`bindings.rs`).
-/

namespace Hotkey

/-- `parse::<u8>` -/
def parse_u8 (s : List Char) : Option Nat :=
  let digits := match s with
    | '+' :: cs => cs
    | cs => cs
  if digits ≠ [] ∧ digits.all Char.isDigit ∧ Rust.digitsNat digits < 256 then some (Rust.digitsNat digits) else none

/-! ## Keys -/

def punctuation : List (String × String) :=
  [(")", "parenright"), ("!", "exclam"), ("@", "at"), ("#", "numbersign"), ("$", "dollar"), ("%", "percent"),
    ("^", "asciicircum"), ("&", "ampersand"), ("*", "asterisk"), ("(", "parenleft"), (":", "colon"),
    (";", "semicolon"), ("+", "plus"), ("=", "equal"), ("<", "less"), (",", "comma"), ("_", "underscore"),
    ("-", "minus"), (">", "greater"), (".", "period"), ("?", "question"), ("/", "slash"), ("~", "asciitilde"),
    ("`", "grave"), ("\x7b", "braceleft"), ("]", "bracketright"), ("[", "bracketleft"), ("|", "bar"),
    ("\\", "backslash"), ("\x7d", "braceright"), ("\"", "quotedbl"), ("'", "apostrophe")]

/-- Keys whose portal spelling differs from their lowercase name. -/
def static_keys : List (String × String) :=
  [("space", "space"), ("tab", "Tab"), ("enter", "Return"), ("return", "Return"), ("escape", "Escape"),
    ("esc", "Escape"), ("backspace", "BackSpace"), ("delete", "Delete"), ("del", "Delete"), ("insert", "Insert"),
    ("home", "Home"), ("end", "End"), ("pageup", "Page_Up"), ("pagedown", "Page_Down"), ("left", "Left"),
    ("leftarrow", "Left"), ("right", "Right"), ("rightarrow", "Right"), ("up", "Up"), ("uparrow", "Up"),
    ("down", "Down"), ("downarrow", "Down"), ("volumeup", "XF86AudioRaiseVolume"),
    ("volumedown", "XF86AudioLowerVolume"), ("volumemute", "XF86AudioMute"), ("mute", "XF86AudioMute"),
    ("medianext", "XF86AudioNext"), ("medianexttrack", "XF86AudioNext"), ("mediaprev", "XF86AudioPrev"),
    ("mediaprevioustrack", "XF86AudioPrev"), ("mediaplaypause", "XF86AudioPlay"), ("printscreen", "Print")]

/-- `to_ascii_lowercase().replace(dropped, "")` -/
def lowered (dropped : List Char) (s : String) : String :=
  String.ofList ((s.toList.map Char.toLower).filter fun c => c ∉ dropped)

/-- The number of a function key, `f` and up to 35. -/
def function_key (n : String) : Option Nat :=
  match n.toList with
  | 'f' :: number => (parse_u8 number).filter fun n => 1 ≤ n ∧ n ≤ 35
  | _ => none

/-- The digit of a numpad key, `num` and one byte. -/
def numpad_key (n : String) : Option (List Char) :=
  match n.toList with
  | 'n' :: 'u' :: 'm' :: digit =>
    if n.utf8ByteSize = 4 ∧ (parse_u8 digit).isSome then some digit else none
  | _ => none

/-- Map one key name to its keysym spelling. -/
def normalize_key (raw : String) : Except String String :=
  let key := Rust.trim raw
  match punctuation.lookup key with
  | some name => .ok name
  | none =>
    let n := lowered [' ', '-', '/'] key
    match static_keys.lookup n with
    | some mapped => .ok mapped
    | none =>
      if n.utf8ByteSize = 1 ∧ n.toList.all Char.isAlphanum then .ok n
      else if (function_key n).isSome then .ok (String.ofList (n.toList.map Char.toUpper))
      else
        match numpad_key n with
        | some digit => .ok ("KP_" ++ String.ofList digit)
        | none => .error ("unsupported key '" ++ key ++ "'")

/-! ## Triggers -/

inductive Modifier where
  | ctrl
  | logo
  | alt
  | shift
deriving DecidableEq

def Modifier.name : Modifier → String
  | .ctrl => "CTRL"
  | .logo => "LOGO"
  | .alt => "ALT"
  | .shift => "SHIFT"

def modifiers : List (String × Modifier) :=
  [("ctrl", .ctrl), ("control", .ctrl), ("cmdorctrl", .ctrl), ("super", .logo), ("meta", .logo), ("logo", .logo),
    ("win", .logo), ("alt", .alt), ("option", .alt), ("shift", .shift)]

/-- The modifier that a part of a trigger is. -/
def modifier (part : String) : Option Modifier :=
  modifiers.lookup (lowered [' ', '_', '-'] part)

/-- The parts between plus signs that are not blank. -/
def parts (raw : String) : List String :=
  ((raw.toList.splitOn '+').map fun part => Rust.trim (String.ofList part)).filter fun part => part ≠ ""

/-- One part: modifiers are kept once, and there is one key. -/
def add_part (raw : String) (read : List Modifier × Option String) (part : String) :
    Except String (List Modifier × Option String) :=
  match modifier part with
  | some m => .ok (if m ∈ read.1 then read.1 else read.1 ++ [m], read.2)
  | none => do
    let key ← normalize_key part
    if read.2.isSome then .error ("trigger '" ++ raw ++ "' has more than one non-modifier key")
    else .ok (read.1, some key)

/-- Normalize an operator trigger into the portal form. -/
def normalize_trigger (raw : String) : Except String String := do
  match ← (parts raw).foldlM (add_part raw) ([], none) with
  | (_, none) => .error ("trigger '" ++ raw ++ "' needs one non-modifier key")
  | ([], some _) => .error ("trigger '" ++ raw ++ "' needs at least one modifier (Ctrl/Super/Alt/Shift)")
  | (mods, some key) => .ok (String.intercalate "+" (mods.map Modifier.name) ++ "+" ++ key)

/-! ## The store -/

/-- One registered global shortcut. -/
structure Binding where
  id : String
  trigger : String
  description : String
deriving DecidableEq

/-- The bindings, in the order in which their ids were added. -/
abbrev BindingStore := List Binding

namespace BindingStore

/-- A binding takes the place of the one with its id. -/
def set (store : BindingStore) (binding : Binding) : BindingStore :=
  if store.any fun b => b.id = binding.id then
    store.replaceF fun b => if b.id = binding.id then some binding else none
  else store ++ [binding]

def remove (store : BindingStore) (id : String) : BindingStore × Bool :=
  let kept := store.filter fun b => b.id ≠ id
  (kept, kept.length ≠ store.length)

end BindingStore

end Hotkey
