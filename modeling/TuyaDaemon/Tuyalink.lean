import TuyaDaemon.CMemory

/-! The Tuya SDK, as the daemons see it. Inside `tuya_mqtt_connect`, `tuya_mqtt_loop` and
`tuya_mqtt_disconnect` it calls back: `on_connected` when a connection is established,
`on_messages` while there is one, `on_disconnect` when it is lost or closed. -/

namespace TuyaDaemon
set_option autoImplicit false

def oprtOk : Int := 0

inductive ThingType where
  | propertyReportRsp
  | propertySet
  | actionExecute
  | other (id : Nat)
  deriving DecidableEq, Repr

structure TuyalinkMessage where
  type : ThingType
  dataString : Option CString
  deriving DecidableEq, Repr

/-- `tuya_mqtt_config_t`, without the certificate and the callbacks. -/
structure TuyaMqttConfig where
  host : CString
  port : UInt16
  deviceId : Option CString
  deviceSecret : Option CString
  keepalive : UInt32
  timeoutMs : UInt32
  deriving DecidableEq, Repr

/-- The configuration that both daemons initialise the SDK with. -/
def tuyaMqttConfig (deviceId deviceSecret : Option CString) : TuyaMqttConfig where
  host := cstr "m1.tuyacn.com"
  port := 8883
  deviceId := deviceId
  deviceSecret := deviceSecret
  keepalive := 100
  timeoutMs := 2000

/-- A callback, with what the calls that its handler makes will answer. -/
inductive Callback (Conn Msg : Type) where
  | onConnected (env : Conn)
  | onMessages (msg : TuyalinkMessage) (env : Msg)
  | onDisconnect

/-- Whether there is a connection after the callback; `none` if it may not be called. -/
def Callback.link {Conn Msg : Type} (linked : Bool) : Callback Conn Msg → Option Bool
  | onConnected _ => if linked then none else some true
  | onMessages _ _ => if linked then some true else none
  | onDisconnect => if linked then some false else none

/-- The connection after a sequence of callbacks, if the SDK may fire them in this order. -/
def links {Conn Msg : Type} (linked : Bool) : List (Callback Conn Msg) → Option Bool
  | [] => some linked
  | cb :: cbs =>
    match cb.link linked with
    | none => none
    | some linked => links linked cbs

end TuyaDaemon
