import TuyaDaemon.CJson
import TuyaDaemon.EventMachine
import TuyaDaemon.Tuyalink

/-!
# connection.c of the stand-alone daemon

`Strftime` is the parameter for the C library's function: what a format expands to, and
what a call leaves behind that does not fit.
-/

namespace TuyaDaemon.Standalone

set_option autoImplicit false

/-- `strftime` copies every character but `%`; `unspecified` is what it leaves in the array
when the expansion does not fit. -/
structure Strftime (Tm : Type) where
  expansion : CString → Tm → CString
  unspecified : CString → Tm → Nat → List UInt8
  expansion_nil : ∀ tm, expansion [] tm = []
  expansion_ordinary : ∀ (c : UInt8) (format : CString) (tm : Tm), c ≠ 37 →
    expansion (c :: format) tm = c :: expansion format tm
  unspecified_length : ∀ format tm size, (unspecified format tm size).length ≤ size

/-- What `date_time_format` points to: the initial literal, or a string taken from a message. -/
inductive FormatPtr where
  | literal
  | heap (s : HeapString)
  deriving DecidableEq, Repr

def FormatPtr.text : FormatPtr → CString
  | literal => cstr "%F %T%z"
  | heap s => s.text

/-- The two statics of the file. -/
structure DateTimeFormat where
  shouldFree : Bool
  format : FormatPtr
  deriving DecidableEq, Repr

def initialFormat : DateTimeFormat := ⟨false, .literal⟩

inductive Effect where
  | onConnected
  | onMessages
  | onDisconnect
  | parse (made : List HeapString)
  | delete (freed : List HeapString)
  | free (p : FormatPtr)
  | report (msg : CString)
  | mqttInit (config : TuyaMqttConfig) (ret : Int)
  deriving DecidableEq, Repr

def setDateTimeFormat (format : HeapString) (d : DateTimeFormat) :
    DateTimeFormat × List Effect :=
  (⟨true, .heap format⟩, if d.shouldFree then [.free d.format] else [])

def freeDateTimeFormat (d : DateTimeFormat) : List Effect :=
  if d.shouldFree then [.free d.format] else []

/-- What the clock and the SDK answer while the time is reported. -/
structure TimeEnv (Tm : Type) where
  time : Int
  localtime : Int → Option Tm
  report : CString → Int

section
variable {Tm : Type} (lib : Strftime Tm) (env : TimeEnv Tm)

/-- The result of `strftime` and the bytes it stores. -/
def strftime (size : Nat) (format : CString) (tm : Tm) : Nat × List UInt8 :=
  let s := lib.expansion format tm
  if s.length < size then (s.length, s ++ [0]) else (0, lib.unspecified format tm size)

/-- `get_time_string` on the part of `buf` that begins at `off`. -/
def getTimeString (buf : List UInt8) (off strSize : Nat) (format : CString) :
    Except Fault (Int × List UInt8) := do
  let currentTimeEpoch := env.time
  if currentTimeEpoch = -1 then
    return (-1, buf)
  else
    match env.localtime currentTimeEpoch with
    | none => return (-2, buf)
    | some localTime =>
      let (ret, bytes) := strftime lib strSize format localTime
      let buf ← writeAt buf off bytes
      if ret = 0 then
        return (-3, buf)
      else
        return (Int.ofNat ret, buf)

def bufSize : Nat := 200

def reportPrefix : CString := cstr "\x7b\"time\":\""

def sendCurrentTime (dateTimeFormat : CString) : Except Fault (Int × List Effect) := do
  let buf := reportPrefix ++ List.replicate (bufSize - reportPrefix.length) 0
  let usedBufLength := (readCString buf).length
  let (timeLength, buf) ←
    getTimeString lib env buf usedBufLength (bufSize - usedBufLength) dateTimeFormat
  if timeLength < 0 then
    return (-1, [])
  else if usedBufLength + timeLength.toNat + 2 ≥ bufSize then
    return (-2, [])
  else
    let buf ← writeAt buf (usedBufLength + timeLength.toNat) [34]
    let buf ← writeAt buf (usedBufLength + timeLength.toNat + 1) [125]
    let buf ← writeAt buf (usedBufLength + timeLength.toNat + 2) [0]
    let msg := readCString buf
    if env.report msg < 0 then
      return (-3, [.report msg])
    else
      return (0, [.report msg])

end

/-- The case `THING_TYPE_PROPERTY_SET` of `on_messages`. -/
def propertySet (decode : Decoder) (dataString : Option CString)
    (d : DateTimeFormat) (next : Nat) : Except Fault (DateTimeFormat × Nat × List Effect) := do
  let (fullData, next) := CJson.parse decode next dataString
  let fullData ← deref fullData
  let parsed := Effect.parse fullData.strings
  match fullData.child with
  | [] => return (d, next, [parsed, .delete fullData.strings])
  | data :: rest =>
    if !(← strcmpEq data.string (cstr "date_time_format")) then
      return (d, next, [parsed, .delete fullData.strings])
    else
      match data.valuestring with
      | none => return (d, next, [parsed, .delete fullData.strings])
      | some value =>
        let (d, frees) := setDateTimeFormat value d
        let fullData := { fullData with child := { data with valuestring := none } :: rest }
        return (d, next, parsed :: frees ++ [.delete fullData.strings])

def onMessages (decode : Decoder) (msg : TuyalinkMessage) (d : DateTimeFormat)
    (next : Nat) : Except Fault (DateTimeFormat × Nat × List Effect) :=
  match msg.type with
  | .propertySet => propertySet decode msg.dataString d next
  | _ => return (d, next, [])

structure Memory where
  linked : Bool
  format : DateTimeFormat
  next : Nat
  deriving DecidableEq, Repr

/-- One callback. A handler that faults takes the process down: it has no step. -/
def callback {Tm : Type} (lib : Strftime Tm) :
    EventMachine.Step Memory (Callback (TimeEnv Tm) Decoder) Effect :=
  fun m cb =>
    match cb.link m.linked with
    | none => none
    | some linked =>
      match cb with
      | .onConnected env =>
        match sendCurrentTime lib env m.format.format.text with
        | .error _ => none
        | .ok (_, es) => some ({ m with linked }, .onConnected :: es)
      | .onMessages msg decode =>
        match onMessages decode msg m.format m.next with
        | .error _ => none
        | .ok (format, next, es) => some ({ linked, format, next }, .onMessages :: es)
      | .onDisconnect => some ({ m with linked }, [.onDisconnect])

end TuyaDaemon.Standalone
