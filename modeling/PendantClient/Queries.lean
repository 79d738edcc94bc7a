import PendantClient.Outputs
import PendantClient.Session

/-! The queries of a `PendantSession` (`session.py`): what `get_device_info` and `get_device_status` read out of the message
    that `_request` returns to them. -/

namespace PendantClient

/-- The fields of a `DeviceInfoMsg` that are read, with their defaults. -/
structure DeviceInfoMsg where
  deviceId : Int := 0
  serialNum : String := ""
  firmwareVer : String := ""
  batteryPercent : Int := 0
  deviceAudioEncryptionPubKey : Bytes := []
  oldestFlashPage : Int := 0
  newestFlashPage : Int := 0
  deriving Repr, DecidableEq

/-- The `DeviceInfo` of a session, with what only the keys are derived from. -/
structure QueriedDevice extends DeviceInfo where
  audioEncryptionPubKey : Bytes
  raw : DeviceInfoMsg
  deriving Repr, DecidableEq

/-- The encoding that `msg.device_info` or `msg.device_status` is read from. A submessage that is unset reads as an empty
    one: all its fields have their defaults. -/
def PendantAllMsg.submessage (msg : PendantAllMsg) (kind : ContentKind) : Bytes :=
  match msg.content with
  | some (.other k _ encoding) => if k = kind then encoding else []
  | _ => []

/-- `get_device_info`, when `_request` has returned. `read` decodes a submessage. -/
def getDeviceInfo (read : Bytes → DeviceInfoMsg) (resp : PendantAllMsg) : QueriedDevice :=
  let di := read (resp.submessage .deviceInfo)
  { deviceId := di.deviceId
    serialNum := di.serialNum
    firmwareVer := di.firmwareVer
    batteryPercent := di.batteryPercent
    audioEncryptionPubKey := di.deviceAudioEncryptionPubKey
    oldestFlashPage := di.oldestFlashPage
    newestFlashPage := di.newestFlashPage
    raw := di }

/-- `get_device_status`, when `_request` has returned. -/
def getDeviceStatus {σ : Type} (read : Bytes → σ) (resp : PendantAllMsg) : σ := read (resp.submessage .deviceStatus)

namespace RequestCall

/-- What `get_device_info` returns if this is its call of `_request`. -/
def deviceInfo (read : Bytes → DeviceInfoMsg) (c : RequestCall) : Option QueriedDevice :=
  match c.expectedOneof, c.phase with
  | some .deviceInfo, .returned resp => some (getDeviceInfo read resp)
  | _, _ => none

/-- What `get_device_status` returns if this is its call of `_request`. -/
def deviceStatus {σ : Type} (read : Bytes → σ) (c : RequestCall) : Option σ :=
  match c.expectedOneof, c.phase with
  | some .deviceStatus, .returned resp => some (getDeviceStatus read resp)
  | _, _ => none

end RequestCall

end PendantClient
