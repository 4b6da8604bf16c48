import TuyaDaemon.CMemory

/-!
# args.c of the OpenWrt daemon, and what main does with the options

The four options are looked up one after another through the same `struct uci_ptr`. What
a lookup leaves in the structure is up to libuci: `UciLookup` is any answer at all.
-/

namespace TuyaDaemon.Openwrt

set_option autoImplicit false

inductive UciOptionType where
  | string
  | list
  deriving DecidableEq, Repr

structure UciOption where
  type : UciOptionType
  string : CString
  deriving DecidableEq, Repr

/-- `struct uci_ptr`: the flag `UCI_LOOKUP_COMPLETE` and the option found. -/
structure UciPtr where
  lookupComplete : Bool
  o : Option UciOption
  deriving DecidableEq, Repr

def uciErrNotFound : Int := 3

abbrev UciLookup := CString → UciPtr → Int × UciPtr

def uciCheckSuccess (ret : Int) (ptr : UciPtr) : Bool :=
  if ret = uciErrNotFound then false
  else if !ptr.lookupComplete then false
  else true

def uciGetOption (lookup : UciLookup) (option : CString) (ptr : UciPtr) :
    Except Fault (Option CString × UciPtr) := do
  let (ret, ptr) := lookup option ptr
  if !uciCheckSuccess ret ptr then return (none, ptr)
  else
    let o ← deref ptr.o
    if o.type ≠ .string then return (none, ptr)
    else return (some o.string, ptr)

def strToDigit (str : CString) : Option Nat :=
  match str with
  | [c] => if c < 48 ∨ c > 57 then none else some (c.toNat - 48)
  | _ => none

structure UciContext where
  id : Nat
  deriving DecidableEq, Repr

def deviceIdOption : CString := cstr "tuya.tuya_daemon.device_id"
def deviceSecretOption : CString := cstr "tuya.tuya_daemon.device_secret"
def productIdOption : CString := cstr "tuya.tuya_daemon.product_id"
def logLevelOption : CString := cstr "tuya.tuya_daemon.log_level"

def optionsConst : List CString :=
  [deviceIdOption, deviceSecretOption, productIdOption, logLevelOption]

inductive LogPriority where
  | emerg
  | alert
  | crit
  | err
  | warning
  | notice
  | info
  | debug
  deriving DecidableEq, Repr

def logPriorities : List LogPriority :=
  [.emerg, .alert, .crit, .err, .warning, .notice, .info, .debug]

structure Options where
  deviceId : CString
  deviceSecret : CString
  productId : CString
  logMask : LogPriority
  deriving DecidableEq, Repr

/-- The part of `main` that reads the options; `none` when it gives up on them. -/
def readOptions (lookups : Nat → UciLookup) (ptr : UciPtr) : Except Fault (Option Options) := do
  let (deviceId, ptr) ← uciGetOption (lookups 0) deviceIdOption ptr
  let (deviceSecret, ptr) ← uciGetOption (lookups 1) deviceSecretOption ptr
  let (productId, ptr) ← uciGetOption (lookups 2) productIdOption ptr
  let (logLevelStr, _) ← uciGetOption (lookups 3) logLevelOption ptr
  match deviceId, deviceSecret, productId, logLevelStr with
  | some deviceId, some deviceSecret, some productId, some logLevelStr =>
    match strToDigit logLevelStr with
    | none => return none
    | some logLevel =>
      if logLevel > 7 then return none
      else
        match logPriorities[logLevel]? with
        | none => throw .outOfBounds
        | some logMask => return some ⟨deviceId, deviceSecret, productId, logMask⟩
  | _, _, _, _ => return none

end TuyaDaemon.Openwrt
