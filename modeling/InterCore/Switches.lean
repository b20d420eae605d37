/-!
# Switches

What can be switched at boot, and the text form of such settings: lines of the form
`key = value`, where `#` starts a comment. The text is bytes; only a line feed ends a line, and
only spaces, tabs and carriage returns around a key or a value are ignored.

## Main definitions

* `Switches.Key`: the switches, with their names in the text.
* `Switches.assignment?`: what one line assigns, if it is a valid assignment.
* `Switches.ofBytes`: the settings that a text makes, later lines over earlier ones.
-/

namespace InterCore

/-- Settings that a boot takes. -/
structure Switches where
  /-- Let system events interrupt the host. -/
  systemEvents : Bool := true
  /-- Publish the traces queue and let traces interrupt the host. -/
  traces : Bool := false
  /-- Attach the logging observer. -/
  logEvents : Bool := false
  deriving DecidableEq, Repr, Inhabited

namespace Switches

/-- The switches by name. -/
inductive Key where
  | systemEvents
  | traces
  | logEvents
  deriving DecidableEq, Repr

/-- Every switch. -/
def Key.all : List Key :=
  [.systemEvents, .traces, .logEvents]

/-- The name of a switch in the text. -/
def Key.name : Key → String
  | .systemEvents => "enable_sys_events"
  | .traces => "enable_traces"
  | .logEvents => "log_events"

/-- The value of a switch. -/
def get (s : Switches) : Key → Bool
  | .systemEvents => s.systemEvents
  | .traces => s.traces
  | .logEvents => s.logEvents

/-- Give a switch a value. -/
def set (s : Switches) : Key → Bool → Switches
  | .systemEvents, v => { s with systemEvents := v }
  | .traces, v => { s with traces := v }
  | .logEvents, v => { s with logEvents := v }

theorem get_set (s : Switches) (k k' : Key) (v : Bool) :
    (s.set k v).get k' = if k = k' then v else s.get k' := by
  cases k <;> cases k' <;> rfl

/-! ### The text form -/

/-- The bytes of a text of ASCII characters. -/
def ascii (s : String) : List UInt8 :=
  s.toList.map Char.toUInt8

/-- The bytes ignored around keys and values: space, tab and carriage return. -/
def isBlank (b : UInt8) : Bool :=
  b = 0x20 || b = 0x09 || b = 0x0D

/-- Bytes without the blanks at both ends. -/
def trim (bs : List UInt8) : List UInt8 :=
  ((bs.dropWhile isBlank).reverse.dropWhile isBlank).reverse

/-- Put one byte in front of the lines that follow it. A line feed starts a line of its own. -/
def consLine (b : UInt8) : List (List UInt8) → List (List UInt8)
  | [] => [[b]]
  | l :: ls => if b = 0x0A then [] :: l :: ls else (b :: l) :: ls

/-- The lines of a text, which line feeds separate. -/
def lines (bytes : List UInt8) : List (List UInt8) :=
  bytes.foldr consLine [[]]

/-- The words for a switch that is on. -/
def onWords : List (List UInt8) :=
  ["true", "1", "yes", "on"].map ascii

/-- The words for a switch that is off. -/
def offWords : List (List UInt8) :=
  ["false", "0", "no", "off"].map ascii

/-- The value that a word stands for. -/
def value? (word : List UInt8) : Option Bool :=
  if word ∈ onWords then some true
  else if word ∈ offWords then some false
  else none

/-- The switch that a word names. -/
def key? (word : List UInt8) : Option Key :=
  Key.all.find? fun k => ascii k.name = word

/-- What a line assigns: its comment is cut off, and the first equals sign parts key and value.
Anything else on a line, an unknown key and an unknown value assign nothing. -/
def assignment? (line : List UInt8) : Option (Key × Bool) :=
  let content := line.takeWhile (· ≠ 0x23)
  match content.dropWhile (· ≠ 0x3D) with
  | [] => none
  | _ :: after => do
    let v ← value? (trim after)
    let k ← key? (trim (content.takeWhile (· ≠ 0x3D)))
    return (k, v)

/-- Settings after one more line. -/
def apply (s : Switches) (line : List UInt8) : Switches :=
  match assignment? line with
  | some (k, v) => s.set k v
  | none => s

/-- The settings that a text makes, starting from the defaults. -/
def ofBytes (bytes : List UInt8) : Switches :=
  (lines bytes).foldl apply {}

end Switches

end InterCore
