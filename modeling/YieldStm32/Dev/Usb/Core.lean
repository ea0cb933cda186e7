import Mathlib.Logic.Function.Basic
import YieldStm32.Lib.Ring

/-!
# Control transfers (`dev/src/usb_core.c`, `dev/src/usb_vcp.c`, `dev/src/usb_desc.c`)

The stages of a control transfer are run by the callbacks of the transfers on endpoint 0. The state holds the variables of the
module, the transfers in progress, memory, and two logs: the calls of the driver, and the arguments of the notifications.
Pointers point into blocks of memory, of which one is for null.

* `startINTransfer`, `startOUTTransfer`, `startSETUPTransfer` : the driver, as far as a transfer in progress is left alone;
* `startDataINStage`, `dataINCallback`, ... : the stages;
* `processSetupGetDescriptor`, ..., `processSetupData`, `processSetupNoData` : the requests;
* `setupDone`, `inDone`, `outPacket` : what the controller reports;
* `requestCallback` : the virtual COM port.
-/

namespace YieldStm32.Usb

/-- What pointers point into: null, descriptors, `buf`, the line coding, `ctl_setup`, or other memory. -/
inductive Block
  | null | device | qualifier | config (i : Nat) | string (i : Nat) | buf | le | ctlSetup | other (i : Nat)
deriving DecidableEq

structure Ptr where
  block : Block
  offs : Nat
deriving DecidableEq

/-- The null pointer. -/
def Ptr.null : Ptr := ⟨.null, 0⟩

/-- `p + n` -/
def Ptr.add (p : Ptr) (n : Nat) : Ptr := ⟨p.block, p.offs + n⟩

theorem Ptr.add_add (p : Ptr) (m n : Nat) : (p.add m).add n = p.add (m + n) := by
  rw [Ptr.add, Ptr.add, Ptr.add, Nat.add_assoc]

/-- `usb_setup_t` -/
structure Setup where
  requestType : UInt8
  request : UInt8
  value : UInt16
  index : UInt16
  length : UInt16
deriving DecidableEq

/-- `usbcore_req_evarg_t` -/
structure ReqEvArg where
  setup : Setup
  status : Int
  ptr : Ptr
  size : UInt32
deriving DecidableEq

/-- `usb_desc_t` -/
structure Desc where
  ptr : Ptr
  size : UInt32

/-- `usb_descset_t` -/
structure DescSet where
  device : Desc
  qualifier : Desc
  configs : List Desc
  strings : List Desc
  ifacesNum : Nat
  endpointsNum : Nat

/-- `usb_descriptors` -/
def usbDescriptors : DescSet where
  device := ⟨⟨.device, 0⟩, 18⟩
  qualifier := ⟨⟨.qualifier, 0⟩, 10⟩
  configs := [⟨⟨.config 0, 0⟩, 116⟩]
  strings := [⟨⟨.string 0, 0⟩, 12⟩, ⟨⟨.string 1, 0⟩, 12⟩, ⟨⟨.string 2, 0⟩, 10⟩, ⟨⟨.string 3, 0⟩, 36⟩]
  ifacesNum := 3
  endpointsNum := 4

inductive DevState
  | default | address | configured
deriving DecidableEq

/-- The device control block. -/
structure Dev where
  state : DevState
  address : UInt32
  configuration : UInt32
  status : UInt32
  epHaltTx : UInt32
  epHaltRx : UInt32
  alternateSettings : Nat → UInt32

/-- The callbacks of transfers on endpoint 0. -/
inductive Callback
  | setup | dataIN | statusOUT | dataOUT | statusIN
deriving DecidableEq

/-- A transfer in progress. -/
structure Transfer where
  ptr : Ptr
  size : UInt32
  callback : Callback
deriving DecidableEq

/-- The calls of the driver, all for endpoint 0. -/
inductive DriverCall
  | startSETUP (ptr : Ptr) (size : UInt32) (cb : Callback)
  | startIN (ptr : Ptr) (size : UInt32) (cb : Callback)
  | startOUT (ptr : Ptr) (size : UInt32) (cb : Callback)
  | stallIN
  | stallOUT
  | setDeviceAddress (addr : UInt8)
deriving DecidableEq

/-- The variables of the module, the state `subs` of the subscribers of `usbcore_req_ev`, memory, the transfers in progress,
the calls of the driver and the arguments subscribers were notified with. -/
structure Core (σ : Type*) where
  ctlSetup : Nat → Setup
  ctlIndex : UInt32
  ctlPtr : Ptr
  ctlSize : UInt32
  ctlOffset : UInt32
  dev : Dev
  subs : σ
  mem : Block → Nat → UInt8
  epIn : Option Transfer
  epOut : Option Transfer
  calls : List DriverCall
  notes : List ReqEvArg

/-- `EOK`, `EFATAL`, `EUSB_RESET` -/
def eok : Int := 0

def efatal : Int := -1

def eusbReset : Int := -20

/-- `USB_CTRLEP_SIZE` -/
def ctrlepSize : UInt32 := 64

theorem toNat_min (a b : UInt32) : (min a b).toNat = min a.toNat b.toNat := by
  show (if a ≤ b then a else b).toNat = _
  split
  · rename_i h
    exact (Nat.min_eq_left (UInt32.le_iff_toNat_le.1 h)).symm
  · rename_i h
    have hlt : ¬ a.toNat ≤ b.toNat := fun hle => h (UInt32.le_iff_toNat_le.2 hle)
    exact (Nat.min_eq_right (Nat.le_of_not_le hlt)).symm

/-- What is left behind an offset. -/
theorem toNat_rest {size offset : UInt32} {o : Nat} (ho : offset.toNat = o) (hle : o ≤ size.toNat) :
    (size - offset).toNat = size.toNat - o := by
  subst ho
  exact UInt32.toNat_sub_of_le _ _ (UInt32.le_iff_toNat_le.2 hle)

namespace Core

variable {σ : Type*}

/-! ## The driver -/

def call (c : Core σ) (d : DriverCall) : Core σ := { c with calls := c.calls ++ [d] }

/-- `USB_StartINTransfer`; a transfer in progress is left alone. -/
def startINTransfer (ptr : Ptr) (size : UInt32) (cb : Callback) (c : Core σ) : Core σ :=
  { c with calls := c.calls ++ [.startIN ptr size cb], epIn := c.epIn.or (some ⟨ptr, size, cb⟩) }

/-- `USB_StartOUTTransfer` -/
def startOUTTransfer (ptr : Ptr) (size : UInt32) (cb : Callback) (c : Core σ) : Core σ :=
  { c with calls := c.calls ++ [.startOUT ptr size cb], epOut := c.epOut.or (some ⟨ptr, size, cb⟩) }

/-- `USB_StartSETUPTransfer` -/
def startSETUPTransfer (ptr : Ptr) (size : UInt32) (cb : Callback) (c : Core σ) : Core σ :=
  { c with calls := c.calls ++ [.startSETUP ptr size cb], epOut := c.epOut.or (some ⟨ptr, size, cb⟩) }

/-! ## Stages -/

def startSETUPStage (c : Core σ) : Core σ :=
  startSETUPTransfer ⟨.ctlSetup, 0⟩ 24 .setup { c with ctlPtr := .null, ctlSize := 0 }

/-- `USBCore_StatusOUTCallback` and `USBCore_StatusINCallback`, for every error. -/
def statusOUTCallback (error : Int) (c : Core σ) : Core σ :=
  if error = eusbReset then c.startSETUPStage else c.startSETUPStage

def statusINCallback (error : Int) (c : Core σ) : Core σ :=
  if error = eusbReset then c.startSETUPStage else c.startSETUPStage

def startStatusOUTStage (c : Core σ) : Core σ := c.startOUTTransfer .null 0 .statusOUT

def dataINCallback (error : Int) (c : Core σ) : Core σ :=
  if error = eusbReset then
    c.startSETUPStage
  else if ctrlepSize ≤ c.ctlSize - c.ctlOffset then
    let c := { c with ctlOffset := c.ctlOffset + min ctrlepSize (c.ctlSize - c.ctlOffset) }
    c.startINTransfer (c.ctlPtr.add c.ctlOffset.toNat) (min ctrlepSize (c.ctlSize - c.ctlOffset)) .dataIN
  else
    c.startStatusOUTStage

def startDataINStage (ptr : Ptr) (size : UInt32) (c : Core σ) : Core σ :=
  let c := { c with ctlPtr := ptr, ctlSize := size, ctlOffset := 0 }
  let c := c.startINTransfer c.ctlPtr (min ctrlepSize c.ctlSize) .dataIN
  c.startOUTTransfer .null 0 .statusOUT

def startDataOUTStage (ptr : Ptr) (size : UInt32) (c : Core σ) : Core σ :=
  let c := { c with ctlPtr := ptr, ctlSize := size, ctlOffset := 0 }
  c.startOUTTransfer c.ctlPtr (min ctrlepSize c.ctlSize) .dataOUT

def startStatusINStage (c : Core σ) : Core σ := c.startINTransfer .null 0 .statusIN

def abortStage (c : Core σ) : Core σ := ((c.call .stallIN).call .stallOUT).startSETUPStage

/-! ## Requests for data -/

/-- `buf[0] = x, buf[1] = y` -/
def setBuf (c : Core σ) (x : UInt8) (y : UInt8) : Core σ :=
  { c with mem := Function.update c.mem .buf (Ring.copyIn (c.mem .buf) 0 [x, y]) }

/-- `buf[0] = x` -/
def setBuf0 (c : Core σ) (x : UInt8) : Core σ :=
  { c with mem := Function.update c.mem .buf (Ring.copyIn (c.mem .buf) 0 [x]) }

end Core

/-- What a request returns: the status, and the data with their size. -/
structure Reply (σ : Type*) where
  rc : Int
  ptr : Ptr
  size : UInt32
  core : Core σ

/-- `USB_SETUP_REQTYPE_RECIPIENT_DEVICE`, `_IFACE` and `_EP` of the request type. -/
def Setup.recipient (s : Setup) : UInt8 := s.requestType &&& 0x1f

def Setup.type (s : Setup) : UInt8 := s.requestType &&& 0x60

/-- The direction bit: data for the host. -/
def Setup.dirIn (s : Setup) : Bool := s.requestType &&& 0x80 ≠ 0

namespace Core

variable {σ : Type*}

/-- `Ev_Notify(&usbcore_req_ev, &arg)`: the subscribers may change the argument. -/
def notify (subscribers : σ → ReqEvArg → σ × ReqEvArg) (arg : ReqEvArg) (c : Core σ) : ReqEvArg × Core σ :=
  let (subs, arg') := subscribers c.subs arg
  (arg', { c with subs := subs, notes := c.notes ++ [arg] })

section Requests

variable (subscribers : σ → ReqEvArg → σ × ReqEvArg) (descs : DescSet) (s : Setup) (c : Core σ)

/-- The descriptor of a type and an index for the device: `none` for an unknown type. -/
def deviceDescriptor : Option (Option Desc) :=
  let descType := (s.value >>> 8).toUInt8
  let descIndex := s.value.toUInt8
  match descType.toNat with
  | 0x01 => some (some descs.device)
  | 0x02 => some (descs.configs[descIndex.toNat]?)
  | 0x03 => some (descs.strings[descIndex.toNat]?)
  | 0x06 => some (some descs.qualifier)
  | _ => none

/-- `USBCore_ProcessSetupGetDescriptor`, with `*ptr` and `*size` zero. -/
def processSetupGetDescriptor : Reply σ :=
  let reply : Reply σ :=
    if s.recipient = 0x00 then
      match deviceDescriptor descs s with
      | some (some desc) => ⟨eok, desc.ptr, desc.size, c⟩
      | some none => ⟨eok, .null, 0, c⟩
      | none => ⟨efatal, .null, 0, c⟩
    else if s.recipient = 0x01 then
      let (arg, c) := c.notify subscribers ⟨s, efatal, .null, 0⟩
      ⟨arg.status, arg.ptr, arg.size, c⟩
    else
      ⟨efatal, .null, 0, c⟩
  { reply with size := min reply.size s.length.toUInt32 }

/-- `USBCore_ProcessSetupGetConfiguration` -/
def processSetupGetConfiguration : Reply σ :=
  if s.recipient = 0x00 ∧ (s.value = 0 ∧ s.index = 0 ∧ s.length = 1) ∧ c.dev.state ≠ .default then
    ⟨eok, ⟨.buf, 0⟩, 1, c.setBuf0 c.dev.configuration.toUInt8⟩
  else
    ⟨efatal, .null, 0, c⟩

/-- `USBCore_ProcessSetupGetStatus` -/
def processSetupGetStatus : Reply σ :=
  if s.value ≠ 0 ∨ s.length ≠ 2 then
    ⟨efatal, .null, 0, c⟩
  else if s.recipient = 0x00 then
    if s.index = 0 ∧ c.dev.state ≠ .default then
      ⟨eok, ⟨.buf, 0⟩, 2, c.setBuf c.dev.status.toUInt8 0⟩
    else
      ⟨efatal, .null, 0, c⟩
  else if s.recipient = 0x01 then
    if c.dev.state = .configured ∧ s.index.toUInt8.toNat < descs.ifacesNum then
      ⟨eok, ⟨.buf, 0⟩, 2, c.setBuf 0 0⟩
    else
      ⟨efatal, .null, 0, c⟩
  else if s.recipient = 0x02 then
    let epNum := s.index.toUInt8 &&& 0x7f
    let epDir := s.index.toUInt8 &&& 0x80
    if epNum = 0 ∧ c.dev.state ≠ .default ∨
        0 < epNum ∧ epNum.toNat < descs.endpointsNum ∧ c.dev.state = .configured then
      let epHalt := if epDir ≠ 0 then c.dev.epHaltTx.toUInt8 else c.dev.epHaltRx.toUInt8
      ⟨eok, ⟨.buf, 0⟩, 2, c.setBuf (if epHalt.toNat &&& (1 <<< epNum.toNat) ≠ 0 then 1 else 0) 0⟩
    else
      ⟨efatal, .null, 0, c⟩
  else
    ⟨efatal, .null, 0, c⟩

/-- `USBCore_ProcessSetupGetInterface` -/
def processSetupGetInterface : Reply σ :=
  let ifaceNum := s.index.toUInt8
  if s.value ≠ 0 ∨ s.length ≠ 1 then
    ⟨efatal, .null, 0, c⟩
  else if s.recipient = 0x01 ∧ c.dev.state = .configured ∧ ifaceNum.toNat < descs.ifacesNum then
    ⟨eok, ⟨.buf, 0⟩, 1, c.setBuf0 (c.dev.alternateSettings ifaceNum.toNat).toUInt8⟩
  else
    ⟨efatal, .null, 0, c⟩

/-- The standard requests of `USBCore_ProcessSetupData`. -/
def standardData : Reply σ :=
  if s.type = 0x00 ∧ s.dirIn then
    match s.request.toNat with
    | 0x06 => processSetupGetDescriptor subscribers descs s c
    | 0x08 => processSetupGetConfiguration s c
    | 0x00 => processSetupGetStatus descs s c
    | 0x0a => processSetupGetInterface descs s c
    | _ => ⟨efatal, .null, 0, c⟩
  else
    ⟨efatal, .null, 0, c⟩

/-- `USBCore_ProcessSetupData` -/
def processSetupData : Core σ :=
  let reply := standardData subscribers descs s c
  -- the argument is made of `ctl_ptr` and `ctl_size`, but all of it is written again before the notification
  let (arg, c) := reply.core.notify subscribers ⟨s, reply.rc, reply.ptr, reply.size⟩
  if s.dirIn then
    if arg.status = eok then c.startDataINStage arg.ptr arg.size else c.abortStage
  else if arg.status = eok then
    -- no data yet: this is just after the setup stage
    if c.ctlPtr = .null then c.startDataOUTStage arg.ptr arg.size else c.startStatusINStage
  else
    c.abortStage

end Requests

/-! ## Requests without data -/

section NoData

variable (descs : DescSet) (s : Setup) (c : Core σ)

/-- `USBCore_ProcessSetupSetAddress` -/
def processSetupSetAddress : Int × Core σ :=
  if c.dev.state = .configured ∨ s.recipient ≠ 0x00 then
    (efatal, c)
  else
    let address := s.value.toUInt32
    let c := { c with dev := { c.dev with address := address, state := if address = 0 then .default else .address } }
    (eok, c.call (.setDeviceAddress address.toUInt8))

/-- `USBCore_ProcessSetupSetConfiguration` -/
def processSetupSetConfiguration : Int × Core σ :=
  if c.dev.state = .default ∨ s.recipient ≠ 0x00 then
    (efatal, c)
  else
    let configuration := s.value.toUInt32
    (eok, { c with dev := { c.dev with
      configuration := configuration, state := if configuration = 0 then .address else .configured } })

/-- The endpoint of a halt feature: its number, whether it is an IN endpoint, and whether there is one. -/
def haltEndpoint : UInt8 × Bool × Bool :=
  let epNum := s.index.toUInt8 &&& 0x7f
  (epNum, s.index.toUInt8 &&& 0x80 ≠ 0, 1 ≤ epNum ∧ epNum.toNat < descs.endpointsNum ∧ s.value = 0x00)

/-- `USBCore_ProcessSetupClearFeature` and `USBCore_ProcessSetupSetFeature`: `change` clears or sets a bit of a mask. -/
def changeFeature (change : UInt32 → UInt32 → UInt32) : Int × Core σ :=
  let (epNum, epDir, valid) := haltEndpoint descs s
  if s.recipient = 0x02 ∧ valid then
    let bit := 1 <<< epNum.toUInt32
    if epDir then
      (eok, { c with dev := { c.dev with epHaltTx := change c.dev.epHaltTx bit } })
    else
      (eok, { c with dev := { c.dev with epHaltRx := change c.dev.epHaltRx bit } })
  else
    (efatal, c)

def processSetupClearFeature : Int × Core σ := changeFeature descs s c fun mask bit => mask &&& ~~~bit

def processSetupSetFeature : Int × Core σ :=
  if s.length ≠ 0 then (efatal, c) else changeFeature descs s c fun mask bit => mask ||| bit

/-- `USBCore_ProcessSetupSetInterface` -/
def processSetupSetInterface : Int × Core σ :=
  let ifaceNum := s.index.toUInt8.toNat
  if s.length = 0 ∧ s.recipient = 0x01 ∧ c.dev.state = .configured ∧ ifaceNum < descs.ifacesNum then
    (eok, { c with dev := { c.dev with
      alternateSettings := Function.update c.dev.alternateSettings ifaceNum s.value.toUInt8.toUInt32 } })
  else
    (efatal, c)

/-- The standard requests of `USBCore_ProcessSetupNoData`. -/
def standardNoData : Int × Core σ :=
  if s.type = 0x00 ∧ ¬ s.dirIn then
    match s.request.toNat with
    | 0x05 => processSetupSetAddress s c
    | 0x09 => processSetupSetConfiguration s c
    | 0x01 => processSetupClearFeature descs s c
    | 0x03 => processSetupSetFeature descs s c
    | 0x0b => processSetupSetInterface descs s c
    | _ => (efatal, c)
  else
    (efatal, c)

/-- `USBCore_ProcessSetupNoData` -/
def processSetupNoData (subscribers : σ → ReqEvArg → σ × ReqEvArg) : Core σ :=
  let (rc, c) := standardNoData descs s c
  let (arg, c) := c.notify subscribers ⟨s, rc, .null, 0⟩
  if arg.status = eok then c.startStatusINStage else c.abortStage

end NoData

/-! ## What the controller reports -/

section Events

variable (subscribers : σ → ReqEvArg → σ × ReqEvArg) (descs : DescSet)

/-- `USBCore_ProcessSetup` -/
def processSetup (s : Setup) (c : Core σ) : Core σ :=
  if s.length = 0 then processSetupNoData descs s c subscribers else processSetupData subscribers descs s c

/-- `USBCore_SetupCallback` -/
def setupCallback (error : Int) (size : UInt32) (c : Core σ) : Core σ :=
  if error = eusbReset then
    c
  else
    let c := if size ≠ 0 then { c with ctlIndex := size / 8 - 1 } else c
    processSetup subscribers descs (c.ctlSetup c.ctlIndex.toNat) c

/-- `USBCore_DataOUTCallback` -/
def dataOUTCallback (error : Int) (size : UInt32) (c : Core σ) : Core σ :=
  if error = eusbReset then
    c.startSETUPStage
  else
    let c := { c with ctlOffset := c.ctlOffset + size }
    if size = ctrlepSize then
      c.startOUTTransfer (c.ctlPtr.add c.ctlOffset.toNat) (min ctrlepSize (c.ctlSize - c.ctlOffset)) .dataOUT
    else
      setupCallback subscribers descs eok 0 c

/-- The callback of a transfer. -/
def runCallback (cb : Callback) (error : Int) (size : UInt32) (c : Core σ) : Core σ :=
  match cb with
  | .setup => setupCallback subscribers descs error size c
  | .dataIN => c.dataINCallback error
  | .statusOUT => c.statusOUTCallback error
  | .dataOUT => dataOUTCallback subscribers descs error size c
  | .statusIN => c.statusINCallback error

/-- The transfer to the host is over: `USB_FinishTransfer` on `ep_in[0]`. -/
def inDone (error : Int) (c : Core σ) : Core σ :=
  match c.epIn with
  | none => c
  | some t => runCallback subscribers descs t.callback error t.size { c with epIn := none }

/-- A packet came from the host, and with it the transfer is over: what there is room for is stored. -/
def outPacket (bytes : List UInt8) (c : Core σ) : Core σ :=
  match c.epOut with
  | none => c
  | some t =>
      let stored := bytes.take t.size.toNat
      let c := { c with
        epOut := none
        mem := Function.update c.mem t.ptr.block (Ring.copyIn (c.mem t.ptr.block) t.ptr.offs stored) }
      runCallback subscribers descs t.callback eok (UInt32.ofNat stored.length) c

/-- Setup frames came from the host, and with them the transfer is over. -/
def setupDone (frames : List Setup) (c : Core σ) : Core σ :=
  match c.epOut with
  | none => c
  | some t =>
      let c := { c with epOut := none, ctlSetup := Ring.copyIn c.ctlSetup 0 frames }
      runCallback subscribers descs t.callback eok (UInt32.ofNat (8 * frames.length)) c

end Events

end Core

/-! ## The virtual COM port -/

/-- `USBVCP_RequestCallback`, the only subscriber: it has no state. -/
def requestCallback (_ : Unit) (a : ReqEvArg) : Unit × ReqEvArg :=
  match a.setup.request.toNat with
  | 0x20 => if a.ptr = .null then ((), { a with ptr := ⟨.le, 0⟩, size := 7, status := eok }) else ((), { a with status := eok })
  | 0x21 => ((), { a with ptr := ⟨.le, 0⟩, size := 7, status := eok })
  | 0x22 => ((), { a with status := eok })
  | _ => ((), a)

/-- A configured device, with no transfer in progress. -/
def Core.idle : Core Unit where
  ctlSetup := fun _ => ⟨0, 0, 0, 0, 0⟩
  ctlIndex := 0
  ctlPtr := .null
  ctlSize := 0
  ctlOffset := 0
  dev := ⟨.configured, 1, 1, 0, 0, 0, fun _ => 0⟩
  subs := ()
  mem := fun _ i => UInt8.ofNat i
  epIn := none
  epOut := none
  calls := []
  notes := []

end YieldStm32.Usb
