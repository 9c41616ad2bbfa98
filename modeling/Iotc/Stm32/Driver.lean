import Iotc.Lib.Flash
import Iotc.Web.Basic

/-!
# The flash driver of the STM32L4 samples

`nx_azure_iot_adu_agent_stm32l4xx_driver.c`, whose command handler the OTA client calls, and
`verify_and_correct_boot_bank` of `board_setup.c`. The HAL under them and the boot loader are a
parameter, `Hal`; `Board.Lawful` is what their documentation promises. A `Device` is the flash and
the option bit that they work on, with a count of the calls, of those that have failed and of those
that the flash's manual forbids.
-/

namespace Iotc.Stm32

open Iotc.C Iotc.Lib
open Iotc.Web (AduDriverRequest AduCommand)

/-! ## The device -/

inductive Bank where
  | bank1
  | bank2
  deriving DecidableEq, Repr

def Bank.other : Bank → Bank
  | .bank1 => .bank2
  | .bank2 => .bank1

/-- `HAL_StatusTypeDef`. -/
inductive HalStatus where
  | ok
  | error
  | busy
  | timeout
  deriving DecidableEq, Repr

def HalStatus.toUINT : HalStatus → UINT
  | .ok => 0
  | .error => 1
  | .busy => 2
  | .timeout => 3

/-- Where the flash is mapped. -/
structure FlashMap where
  flashBase : UInt32 := 0x08000000
  flashBankSize : UInt32
  base_dvd : 8 ∣ flashBase.toNat := by decide
  size_dvd : 2048 ∣ flashBankSize.toNat := by decide
  fits : flashBase.toNat + 2 * flashBankSize.toNat < 4294967296 := by decide

/-- `FLASH_BANK2_ADDR`: the bank that the program does not run from is mapped here. -/
def FlashMap.flashBank2Addr (m : FlashMap) : UInt32 := m.flashBase + m.flashBankSize

/-- `fbMode` is the bank that the program runs from, `bfb2` the one to boot from next. -/
structure Flash where
  cells : Bank → Cells UInt8
  fbMode : Bank
  bfb2 : Bank
  unlocked : Bool
  obUnlocked : Bool

/-- `OB_BFB2_ENABLE`, a bit of the user option bytes. -/
def obBfb2Enable : UInt32 := 0x00100000

def obBfb2Disable : UInt32 := 0

def Bank.userConfig : Bank → UInt32
  | .bank1 => obBfb2Disable
  | .bank2 => obBfb2Enable

def Bank.ofUserConfig (userConfig : UInt32) : Bank :=
  if userConfig &&& obBfb2Enable = obBfb2Enable then .bank2 else .bank1

/-- The bytes of a double word in memory. -/
def bytesOf (data : UInt64) : List UInt8 :=
  [data.toUInt8, (data >>> 8).toUInt8, (data >>> 16).toUInt8, (data >>> 24).toUInt8,
    (data >>> 32).toUInt8, (data >>> 40).toUInt8, (data >>> 48).toUInt8, (data >>> 56).toUInt8]

namespace Flash

def setCells (f : Flash) (bank : Bank) (m : Cells UInt8) : Flash :=
  { f with cells := fun k => if k = bank then m else f.cells k }

/-- The bank that shows at an address, and the place in it. -/
def locate (m : FlashMap) (f : Flash) (address : UInt32) : Bank × Nat :=
  if m.flashBank2Addr ≤ address then (f.fbMode.other, address.toNat - m.flashBank2Addr.toNat)
  else (f.fbMode, address.toNat - m.flashBase.toNat)

/-- A double word is programmed at an aligned address of the flash, once after an erasure. -/
def canProgram (m : FlashMap) (f : Flash) (address : UInt32) : Bool :=
  f.unlocked && address.toNat % 8 == 0 && m.flashBase ≤ address &&
    (f.locate m address).2 + 8 ≤ m.flashBankSize.toNat &&
    (f.cells (f.locate m address).1).ready (f.locate m address).2 8

/-- Pages are erased that the bank has. -/
def canErase (m : FlashMap) (f : Flash) (page nbPages : UInt32) : Bool :=
  f.unlocked && 2048 * page.toNat + 2048 * nbPages.toNat ≤ m.flashBankSize.toNat

def canObProgram (f : Flash) : Bool := f.unlocked && f.obUnlocked

end Flash

/-- The calls of the HAL that can fail, and a start of the device: `HAL_FLASH_Program` of a double
word, `HAL_FLASHEx_Erase` of pages, which also gives the page at which it stopped or `0xFFFFFFFF`,
and `HAL_FLASHEx_OBProgram` of the `BFB2` bit. The first argument is the number of the call. -/
structure Hal where
  program : Nat → UInt32 → UInt64 → Flash → HalStatus × Flash
  erase : Nat → Bank → UInt32 → UInt32 → Flash → (HalStatus × UInt32) × Flash
  obProgram : Nat → UInt32 → Flash → HalStatus × Flash
  reset : Flash → Flash

/-- `startable` is what the boot loader takes for an image that can be started,
`nxAzureIotFailure` stands for `NX_AZURE_IOT_FAILURE`. -/
structure Board extends FlashMap where
  hal : Hal
  startable : Cells UInt8 → Bool
  nxAzureIotFailure : UINT
  failure_ne : nxAzureIotFailure ≠ 0 := by decide

/-- What is documented of the HAL and of the boot loader. Nothing is said of a call that the manual
forbids, and little of one that fails. -/
structure Board.Lawful (b : Board) : Prop where
  /-- The double word is programmed; a failure spoils at most its bank. -/
  programs : ∀ k address data f, f.canProgram b.toFlashMap address = true →
    ∃ m, (b.hal.program k address data f).2 = f.setCells (f.locate b.toFlashMap address).1 m ∧
      ((b.hal.program k address data f).1 = .ok →
        m = (f.cells (f.locate b.toFlashMap address).1).store (f.locate b.toFlashMap address).2
          (bytesOf data))
  /-- The pages are erased; a failure spoils at most their bank. -/
  erases : ∀ k bank page nbPages f, f.canErase b.toFlashMap page nbPages = true →
    ∃ m, (b.hal.erase k bank page nbPages f).2 = f.setCells bank m ∧
      ((b.hal.erase k bank page nbPages f).1 = (.ok, 0xFFFFFFFF) →
        m = (f.cells bank).fill (2048 * page.toNat) (2048 * nbPages.toNat) .erased)
  /-- The option bit is set; after a failure it is as it was. -/
  obPrograms : ∀ k userConfig f, f.canObProgram = true → (b.hal.obProgram k userConfig f).2 =
    if (b.hal.obProgram k userConfig f).1 = .ok then { f with bfb2 := .ofUserConfig userConfig }
    else f
  /-- The boot loader starts the second bank if that is chosen and can be started. -/
  resets : ∀ f, b.hal.reset f = { f with
    unlocked := false
    obUnlocked := false
    fbMode := if f.bfb2 = .bank2 ∧ b.startable (f.cells .bank2) then .bank2 else .bank1 }

structure Device extends Flash where
  calls : Nat
  failures : Nat
  misuses : Nat

namespace Device

/-- A call of the HAL has left the flash `f`. -/
def called (d : Device) (f : Flash) (ok legal : Bool) : Device where
  toFlash := f
  calls := d.calls + 1
  failures := d.failures + if ok then 0 else 1
  misuses := d.misuses + if legal then 0 else 1

def program (b : Board) (address : UInt32) (data : UInt64) (d : Device) : HalStatus × Device :=
  let r := b.hal.program d.calls address data d.toFlash
  (r.1, d.called r.2 (r.1 = .ok) (d.canProgram b.toFlashMap address))

def erase (b : Board) (bank : Bank) (page nbPages : UInt32) (d : Device) :
    (HalStatus × UInt32) × Device :=
  let r := b.hal.erase d.calls bank page nbPages d.toFlash
  (r.1, d.called r.2 (r.1 = (.ok, 0xFFFFFFFF)) (d.canErase b.toFlashMap page nbPages))

def obProgram (b : Board) (userConfig : UInt32) (d : Device) : HalStatus × Device :=
  let r := b.hal.obProgram d.calls userConfig d.toFlash
  (r.1, d.called r.2 (r.1 = .ok) d.canObProgram)

def reset (b : Board) (d : Device) : Device := { d with toFlash := b.hal.reset d.toFlash }

def unlock (d : Device) : Device := { d with unlocked := true }

/-- `OPTLOCK` is set with `LOCK`. -/
def lock (d : Device) : Device := { d with unlocked := false, obUnlocked := false }

def obUnlock (d : Device) : Device := { d with obUnlocked := true }

end Device

/-! ## The driver's variables -/

/-- `write_buffer` and the counters; zero before the first command. -/
structure Vars where
  totalWriteSize : UInt32 := 0
  writeSize : UInt32 := 0
  writeBuffer : Vector UInt8 8 := .replicate 8 0
  remainderCount : Int := 0

structure St where
  vars : Vars
  dev : Device

/-- What is thrown is the status of an early return. -/
abbrev M (α : Type) : Type := EStateM UINT St α

def modifyDev (f : Device → Device) : M Unit := modify fun s => { s with dev := f s.dev }

def modifyVars (f : Vars → Vars) : M Unit := modify fun s => { s with vars := f s.vars }

/-! ## The HAL -/

def onDevice {α : Type} (f : Device → α × Device) : M α := fun s =>
  .ok (f s.dev).1 { s with dev := (f s.dev).2 }

def halFlashUnlock : M Unit := modifyDev (·.unlock)

def halFlashLock : M Unit := modifyDev (·.lock)

def halFlashObUnlock : M Unit := modifyDev (·.obUnlock)

def halFlashProgram (b : Board) (address : UInt32) (data : UInt64) : M HalStatus :=
  onDevice (Device.program b address data)

def halFlashExErase (b : Board) (bank : Bank) (page nbPages : UInt32) : M (HalStatus × UInt32) :=
  onDevice (Device.erase b bank page nbPages)

/-- `USERConfig` as `HAL_FLASHEx_OBGetConfig` reads it, its other bits left out. -/
def halFlashExObGetConfig : M UInt32 := return (← get).dev.bfb2.userConfig

def halFlashExObProgram (b : Board) (userConfig : UInt32) : M HalStatus :=
  onDevice (Device.obProgram b userConfig)

/-- `HAL_FLASH_OB_Launch`: the program starts anew. -/
def halFlashObLaunch (b : Board) : M Unit :=
  modify fun s => { vars := {}, dev := s.dev.reset b }

/-! ## The driver -/

def nxAzureIotSuccess : UINT := 0

/-- Put a byte to `write_buffer_char[remainder_count++]`. -/
def Vars.push (v : Vars) (x : UInt8) : Vars :=
  { v with
    writeBuffer := v.writeBuffer.setIfInBounds v.remainderCount.toNat x
    remainderCount := v.remainderCount + 1 }

/-- The word at a place in memory. -/
def word32 (x0 x1 x2 x3 : UInt8) : UInt64 :=
  x0.toUInt64 ||| x1.toUInt64 <<< 8 ||| x2.toUInt64 <<< 16 ||| x3.toUInt64 <<< 24

/-- `write_buffer_int64`. -/
def Vars.word (v : Vars) : UInt64 :=
  let x := v.writeBuffer
  word32 x[0] x[1] x[2] x[3] ||| word32 x[4] x[5] x[6] x[7] <<< 32

/-- The first loop of a write: the rest of an earlier piece is made up to a double word. -/
def fillBuffer (v : Vars) (dest : UInt32) : List UInt8 → Vars × UInt32 × List UInt8
  | [] => (v, dest, [])
  | x :: source =>
    if 0 ≤ v.remainderCount ∧ v.remainderCount < 8 then fillBuffer (v.push x) (dest + 1) source
    else (v, dest, x :: source)

/-- Program a double word; a failure locks the flash and is returned. -/
def programWord (b : Board) (dest : UInt32) (data : UInt64) : M Unit := do
  let status ← halFlashProgram b dest data
  if status ≠ .ok then
    halFlashLock
    throw status.toUINT

/-- The second loop: double words go to the flash as long as more than one is left. -/
def writeWords (b : Board) (dest : UInt32) : List UInt8 → M (UInt32 × List UInt8)
  | x0 :: x1 :: x2 :: x3 :: x4 :: x5 :: x6 :: x7 :: x8 :: source => do
    programWord b dest (word32 x0 x1 x2 x3 ||| word32 x4 x5 x6 x7 <<< 32)
    writeWords b (dest + 8) (x8 :: source)
  | source => return (dest, source)

/-- The last double word of the firmware, filled up. -/
def padBuffer (v : Vars) (dest : UInt32) : Nat → Vars × UInt32
  | 0 => (v, dest)
  | n + 1 => padBuffer (v.push 0xFF) (dest + 1) n

/-- A full buffer goes to the flash. -/
def flushBuffer (b : Board) (dest : UInt32) : M Unit := do
  let v := (← get).vars
  if v.remainderCount = 8 then
    programWord b (dest - 8) v.word
    modifyVars ({ · with remainderCount := -1 })

/-- What is left, at most eight bytes, stays in the buffer. -/
def keepRest (source : List UInt8) : M Unit :=
  modifyVars fun v => source.foldl .push (if source = [] then v else { v with remainderCount := 0 })

/-- At the end of the firmware the buffer is filled up and goes to the flash. -/
def programLast (b : Board) (dest : UInt32) : M Unit := do
  let v := (← get).vars
  if 0 ≤ v.remainderCount ∧ v.totalWriteSize ≤ v.writeSize then
    let padded := padBuffer v dest (8 - v.remainderCount).toNat
    modifyVars fun _ => padded.1
    programWord b (padded.2 - 8) padded.1.word

def internalFlashWrite (b : Board) (dest : UInt32) (source : List UInt8) : M UINT := do
  modifyVars fun v => { v with writeSize := v.writeSize + source.length.toUInt32 }
  let filled := fillBuffer (← get).vars dest source
  modifyVars fun _ => filled.1
  halFlashUnlock
  flushBuffer b filled.2.1
  let rest ← writeWords b filled.2.1 filled.2.2
  keepRest rest.2
  programLast b (rest.1 + rest.2.length.toUInt32)
  halFlashLock
  return 0

def internalFlashErase (b : Board) (bank : Bank) (size : UInt32) : M UINT := do
  if b.flashBankSize < size then
    return 0xFFFFFFFF
  halFlashUnlock
  let (status, pageError) ← halFlashExErase b bank 0 ((size + 2047) / 2048)
  halFlashLock
  if status ≠ .ok ∨ pageError ≠ 0xFFFFFFFF then
    return 0xFFFFFFFF
  modifyVars ({ · with totalWriteSize := size, remainderCount := -1, writeSize := 0 })
  return 0

def bootBankGet : M Bank := do
  let userConfig ← halFlashExObGetConfig
  return .ofUserConfig userConfig

/-- The cases `FLASH_BANK_1` and `FLASH_BANK_2`. -/
def bootBankSet (b : Board) (bank : Bank) : M UINT := do
  halFlashUnlock
  halFlashObUnlock
  let status ← halFlashExObProgram b bank.userConfig
  halFlashLock
  return if status ≠ .ok then 0xFFFFFFFF else 0

def internalFirmwareInstall (b : Board) : M UINT := do
  let status ← bootBankSet b (← bootBankGet).other
  return if status ≠ 0 then b.nxAzureIotFailure else nxAzureIotSuccess

def internalFirmwareApply (b : Board) : M Unit := do
  halFlashUnlock
  halFlashObUnlock
  halFlashObLaunch b

/-- What a command does, and the status of the function that it calls. The bytes at
`firmware_data_ptr` are as many as `firmware_data_size` says. -/
def runCommand (b : Board) (req : AduDriverRequest) : M UINT :=
  match req.command with
  | .driverInitialize => return 0
  | .driverPreprocess => do internalFlashErase b (← bootBankGet).other req.firmwareSize
  | .driverWrite =>
    internalFlashWrite b (b.flashBank2Addr + req.firmwareDataOffset)
      (req.firmwareDataPtr.take req.firmwareDataSize.toNat)
  | .driverInstall => internalFirmwareInstall b
  | .driverApply => do
    internalFirmwareApply b
    return 0

/-- The status that the command handler writes to the request, and the state it leaves. -/
def nxAzureIotAduAgentDriver (b : Board) (req : AduDriverRequest) (s : St) : UINT × St :=
  match runCommand b req s with
  | .ok status s' => (if status ≠ 0 then b.nxAzureIotFailure else nxAzureIotSuccess, s')
  | .error status s' => (if status ≠ 0 then b.nxAzureIotFailure else nxAzureIotSuccess, s')

/-- `verify_and_correct_boot_bank`: after a start from the other bank the option bit follows. -/
def verifyAndCorrectBootBank (b : Board) : M Unit := do
  let d := (← get).dev
  if d.bfb2 ≠ d.fbMode then
    halFlashUnlock
    halFlashObUnlock
    let userConfig ← halFlashExObGetConfig
    let status ← halFlashExObProgram b
      (if userConfig &&& obBfb2Enable = obBfb2Enable then obBfb2Disable else obBfb2Enable)
    if status ≠ .ok then
      halFlashLock
    else
      halFlashObLaunch b

end Iotc.Stm32
