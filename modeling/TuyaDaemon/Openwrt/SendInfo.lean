import TuyaDaemon.CMemory

/-!
# send_info.c of the OpenWrt daemon

Each sender looks a ubus service up, invokes one of its methods and reports the
reply to Tuya. The reply reaches it through `struct ubus_response`, a local that only
the callback initialises; `UbusEnv.stack` is what the local holds before that. libubox is
the parameter `Blobmsg`. System log messages are left out.
-/

namespace TuyaDaemon.Openwrt

set_option autoImplicit false

inductive BlobmsgType where
  | int32
  | int64
  | string
  | table
  | array
  deriving DecidableEq, Repr

structure BlobmsgPolicy where
  name : CString
  type : BlobmsgType
  deriving DecidableEq, Repr

/-- What the file uses of libubox. `Data` stands for the pointer and length that
`blobmsg_parse` is given; `parse_field` is the documented content of its array. -/
structure Blobmsg (Attr Data : Type) where
  blobData : Attr → Data
  blobmsgData : Attr → Data
  blobmsgParse : List BlobmsgPolicy → Data → Int × (Nat → Option Attr)
  blobmsgFormatJson : Attr → CString
  HasField : Data → BlobmsgPolicy → Prop
  parse_field : ∀ policy data i p, (blobmsgParse policy data).1 = 0 → policy[i]? = some p →
    (((blobmsgParse policy data).2 i).isSome = true ↔ HasField data p)

structure UbusContext where
  id : Nat
  deriving DecidableEq, Repr

inductive BlobField where
  | string (s : CString)
  | u32 (n : UInt32)
  deriving DecidableEq, Repr

abbrev BlobBuf := List (CString × BlobField)

structure UbusResponse where
  requestSuccessful : Bool
  dataJson : HeapString
  deriving DecidableEq, Repr

inductive UbusEvent where
  | lookupId (ctx : Option UbusContext) (service : CString)
  | invoke (ctx : Option UbusContext) (id : UInt32) (method : CString)
      (request : Option BlobBuf) (timeout : Nat)
  | blobBufInit
  | blobBufFree
  | formatJson (s : HeapString)
  | report (msg : CString)
  | free (s : HeapString)
  deriving DecidableEq, Repr

/-- What ubus, libubox and the Tuya SDK answer during one call of a sender: statuses and
results, and the data replies that `ubus_invoke` hands to the callback. -/
structure UbusEnv (Attr : Type) where
  lookupId : CString → Int × UInt32
  addString : CString → CString → Int
  addU32 : CString → UInt32 → Int
  invoke : UInt32 → CString → Option BlobBuf → Int × List Attr
  report : CString → Int
  stack : UbusResponse

structure Call where
  resp : UbusResponse
  next : Nat
  events : List UbusEvent
  deriving DecidableEq, Repr

def Call.emit (c : Call) (e : UbusEvent) : Call := { c with events := c.events ++ [e] }

def ubusStatusOk : Int := 0

def totalMemory : Nat := 0
def freeMemory : Nat := 1
def sharedMemory : Nat := 2
def bufferedMemory : Nat := 3
def availableMemory : Nat := 4
def cachedMemory : Nat := 5

def memoryPolicy : List BlobmsgPolicy :=
  [⟨cstr "total", .int64⟩, ⟨cstr "free", .int64⟩, ⟨cstr "shared", .int64⟩,
    ⟨cstr "buffered", .int64⟩, ⟨cstr "available", .int64⟩, ⟨cstr "cached", .int64⟩]

def memoryData : Nat := 0

def infoPolicy : List BlobmsgPolicy := [⟨cstr "memory", .table⟩]

def devctlDeviceCount : Nat := 0
def devctlDeviceList : Nat := 1

def devctlPolicy : List BlobmsgPolicy := [⟨cstr "count", .int32⟩, ⟨cstr "devices", .array⟩]

def devctlCtlStatus : Nat := 0
def devctlCtlMessage : Nat := 1

def devctlCtlPolicy : List BlobmsgPolicy :=
  [⟨cstr "status", .int32⟩, ⟨cstr "message", .string⟩]

section
variable {Attr Data : Type} (lib : Blobmsg Attr Data) (env : UbusEnv Attr)
  (ctx : Option UbusContext)

def lookupUbusService (service : CString) (c : Call) : Bool × UInt32 × Call :=
  let (retVal, id) := env.lookupId service
  (retVal == ubusStatusOk, id, c.emit (.lookupId ctx service))

def reportPropertyToTuya (msg : CString) (c : Call) : Bool × Call :=
  (!decide (env.report msg < 0), c.emit (.report msg))

/-- The common shape of the callbacks: `select` is the attribute to format when the
reply passes the checks of the callback. -/
def receive (select : Attr → Option Attr) (c : Call) (msg : Attr) : Call :=
  match select msg with
  | none => { c with resp := { c.resp with requestSuccessful := false } }
  | some attr =>
    let s : HeapString := ⟨c.next, lib.blobmsgFormatJson attr⟩
    { resp := ⟨true, s⟩, next := c.next + 1, events := c.events ++ [.formatJson s] }

def memDataReply (msg : Attr) : Option Attr :=
  let (ret, tb) := lib.blobmsgParse infoPolicy (lib.blobData msg)
  if ret ≠ 0 then none
  else
    match tb memoryData with
    | none => none
    | some data =>
      let (ret, memory) := lib.blobmsgParse memoryPolicy (lib.blobmsgData data)
      if ret ≠ 0 ∨ memory totalMemory = none ∨ memory freeMemory = none ∨
          memory sharedMemory = none ∨ memory bufferedMemory = none ∨
          memory availableMemory = none ∨ memory cachedMemory = none then none
      else some data

def ubusReceivedMemDataCb : Call → Attr → Call := receive lib (memDataReply lib)

/-- The check of the two devctl callbacks: both fields of the policy are there. -/
def checkedReply (policy : List BlobmsgPolicy) (first second : Nat) (msg : Attr) :
    Option Attr :=
  let (ret, tb) := lib.blobmsgParse policy (lib.blobData msg)
  if ret ≠ 0 ∨ tb first = none ∨ tb second = none then none else some msg

def devListReply : Attr → Option Attr :=
  checkedReply lib devctlPolicy devctlDeviceCount devctlDeviceList

def ubusReceivedDevListCb : Call → Attr → Call := receive lib (devListReply lib)

def devCommandReply : Attr → Option Attr :=
  checkedReply lib devctlCtlPolicy devctlCtlStatus devctlCtlMessage

def ubusDevCommandRespCb : Call → Attr → Call := receive lib (devCommandReply lib)

/-- `ubus_invoke`: the callback runs once for every data reply before it returns. -/
def ubusInvoke (id : UInt32) (method : CString) (request : Option BlobBuf)
    (cb : Call → Attr → Call) (c : Call) : Int × Call :=
  let (retVal, replies) := env.invoke id method request
  (retVal, replies.foldl cb (c.emit (.invoke ctx id method request 10000)))

/-- What the three senders do once `ubus_invoke` has returned. -/
def reportResponse (retVal : Int) (c : Call) : Bool × Call :=
  if retVal ≠ ubusStatusOk then (false, c)
  else if !c.resp.requestSuccessful then (false, c)
  else
    let (ret, c') := reportPropertyToTuya env c.resp.dataJson.text c
    (ret, c'.emit (.free c.resp.dataJson))

/-- The two senders without a request differ in service, method and callback. -/
def invokeAndReport (service method : CString) (cb : Call → Attr → Call) (next : Nat) :
    Bool × Call :=
  let (found, id, c) := lookupUbusService env ctx service ⟨env.stack, next, []⟩
  if !found then (false, c)
  else
    let (retVal, c) := ubusInvoke env ctx id method none cb c
    reportResponse env retVal c

def sendMemoryInfo (next : Nat) : Bool × Call :=
  invokeAndReport env ctx (cstr "system") (cstr "info") (ubusReceivedMemDataCb lib) next

def sendConnectedDevicesList (next : Nat) : Bool × Call :=
  invokeAndReport env ctx (cstr "devctl") (cstr "list_devices") (ubusReceivedDevListCb lib) next

def controlDevicePin (turnOn : Bool) (device : CString) (pin : UInt32) (next : Nat) :
    Bool × Call :=
  let (found, id, c) := lookupUbusService env ctx (cstr "devctl") ⟨env.stack, next, []⟩
  if !found then (false, c)
  else
    let c := c.emit .blobBufInit
    if env.addString (cstr "device") device = -1 ∨ env.addU32 (cstr "pin") pin = -1 then
      (false, c)
    else
      let b : BlobBuf := [(cstr "device", .string device), (cstr "pin", .u32 pin)]
      let onOff := if turnOn then cstr "turn_on_pin" else cstr "turn_off_pin"
      let (retVal, c) := ubusInvoke env ctx id onOff (some b) (ubusDevCommandRespCb lib) c
      let c := c.emit .blobBufFree
      reportResponse env retVal c

end

/-- A concrete libubox: messages are trees of named values. -/
inductive Blob where
  | int32 (n : Nat)
  | int64 (n : Nat)
  | string (s : CString)
  | table (fields : List (CString × Blob))
  | array (fields : List (CString × Blob))

namespace Blob

def type : Blob → BlobmsgType
  | int32 _ => .int32
  | int64 _ => .int64
  | string _ => .string
  | table _ => .table
  | array _ => .array

def fields : Blob → Option (List (CString × Blob))
  | table fs => some fs
  | array fs => some fs
  | _ => none

def matching (p : BlobmsgPolicy) (f : CString × Blob) : Bool :=
  f.1 == p.name && f.2.type == p.type

def parse (policy : List BlobmsgPolicy) (data : Option (List (CString × Blob))) :
    Int × (Nat → Option Blob) :=
  match data with
  | none => (-1, fun _ => none)
  | some fs => (0, fun i => policy[i]?.bind fun p => (fs.find? (matching p)).map Prod.snd)

mutual
def formatJson : Blob → CString
  | int32 n => cstr (toString n)
  | int64 n => cstr (toString n)
  | string s => cstr "\"" ++ s ++ cstr "\""
  | table fs => cstr "\x7b" ++ formatFields true fs ++ cstr "\x7d"
  | array fs => cstr "[" ++ formatFields false fs ++ cstr "]"

def formatFields : Bool → List (CString × Blob) → CString
  | _, [] => []
  | named, (name, b) :: fs =>
    (if named then cstr "\"" ++ name ++ cstr "\":" else []) ++ formatJson b ++
      (if fs.isEmpty then [] else cstr ",") ++ formatFields named fs
end

def blobmsg : Blobmsg Blob (Option (List (CString × Blob))) where
  blobData := fields
  blobmsgData := fields
  blobmsgParse := parse
  blobmsgFormatJson := formatJson
  HasField data p := ∃ fs, data = some fs ∧ ∃ f ∈ fs, matching p f = true
  parse_field := by
    intro policy data i p hret hp
    cases data with
    | none => simp [parse] at hret
    | some fs => simp [parse, hp]

/-- A bus that knows every service, builds every request and answers every
invocation in the same way; Tuya accepts every report. -/
def answering (status : Int) (msgs : List Blob) (stack : UbusResponse) : UbusEnv Blob where
  lookupId _ := (0, 1)
  addString _ _ := 0
  addU32 _ _ := 0
  invoke _ _ _ := (status, msgs)
  report _ := 1
  stack := stack

end Blob

end TuyaDaemon.Openwrt
