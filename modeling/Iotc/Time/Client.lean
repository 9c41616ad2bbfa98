import Iotc.C.Buf
import Iotc.Resume.Run
import Iotc.Web.Basic

/-!
# The clock

`azrtos_time.c`: the Unix time is a base, which `set_time` and `sntp_time_sync` compute,
plus the seconds of the system's tick counter. `ULONG` has 32 bits, and all of its arithmetic
wraps.
-/

namespace Iotc.Time

open Iotc.C Iotc.Resume
open Iotc.Web (nxSuccess)

def nxNotSuccessful : UINT := 0x43
def nxTrue : UINT := 1

/-- `SAMPLE_UNIX_TO_NTP_EPOCH_SECOND` -/
def unixToNtpEpochSecond : ULONG := 0x83AA7E80

structure Build where
  txTimerTicksPerSecond : ULONG
  nxIpPeriodicRate : ULONG
  sntpUpdateMax : Nat := 10
  sntpUpdateInterval : ULONG := nxIpPeriodicRate / 2
  ticks_pos : 0 < txTimerTicksPerSecond := by decide

/-- The clock of the samples: 100 ticks a second. -/
def Build.sample : Build := { txTimerTicksPerSecond := 100, nxIpPeriodicRate := 100 }

/-- What a name lookup comes to. One that fails leaves the address as it is or clears it. -/
inductive Lookup where
  | found (address : ULONG)
  | failed (status : UINT) (err : status ≠ nxSuccess) (cleared : Bool)

def Lookup.status : Lookup → UINT
  | .found _ => nxSuccess
  | .failed status .. => status

/-- The address after the lookup, where `address` is the one before it. -/
def Lookup.addressAfter (address : ULONG) : Lookup → ULONG
  | .found address => address
  | .failed _ _ true => 0
  | .failed _ _ false => address

inductive Op where
  | txTimeGet
  | txThreadSleep (ticks : ULONG)
  | nxDnsHostByNameGet (dnsPtr : Nat) (host : CStr) (waitOption : ULONG)
  | nxSntpClientCreate (ipPtr poolPtr : Nat)
  | nxSntpClientInitializeUnicast (address : ULONG)
  | nxSntpClientSetLocalTime (seconds fraction : ULONG)
  | nxSntpClientRunUnicast
  | nxSntpClientReceivingUpdates
  | nxSntpClientGetLocalTime
  | nxSntpClientStop
  | nxSntpClientDelete

/-- `nxSntpClientReceivingUpdates` gives the status of the server too, and
`nxSntpClientGetLocalTime` the seconds. -/
@[reducible] def Ans : Op → Type
  | .txTimeGet => ULONG
  | .nxDnsHostByNameGet .. => Lookup
  | .nxSntpClientReceivingUpdates => UINT × UINT
  | .nxSntpClientGetLocalTime => UINT × ULONG
  | _ => UINT

/-- A server that answers at once, with the tick counter at `ticks`. -/
def answering (sntpSeconds ticks : ULONG) : (op : Op) → Ans op
  | .txTimeGet => ticks
  | .nxDnsHostByNameGet .. => .found 1
  | .nxSntpClientReceivingUpdates => (nxSuccess, nxTrue)
  | .nxSntpClientGetLocalTime => (nxSuccess, sntpSeconds)
  | .txThreadSleep _ | .nxSntpClientCreate .. | .nxSntpClientInitializeUnicast _ => nxSuccess
  | .nxSntpClientSetLocalTime .. | .nxSntpClientRunUnicast => nxSuccess
  | .nxSntpClientStop | .nxSntpClientDelete => nxSuccess

structure St where
  unixTimeBase : ULONG

def St.init : St := ⟨0⟩

abbrev M (α : Type) : Type := Prog Op Ans St α

/-- The system time in seconds. -/
def systemTime (B : Build) : M ULONG := do
  let ticks ← (.call Op.txTimeGet : M ULONG)
  return ticks / B.txTimerTicksPerSecond

def setTime (B : Build) (unixSeconds : ULONG) : M Unit := do
  let systemTimeInSeconds ← systemTime B
  .modify ({ · with unixTimeBase := unixSeconds - systemTimeInSeconds })

/-- The status and what `unix_time` is set to. -/
def unixTimeGet (B : Build) : M (UINT × ULONG) := do
  let s ← .get
  let systemTimeInSeconds ← systemTime B
  return (nxSuccess, s.unixTimeBase + systemTimeInSeconds)

/-! ## `sntp_time_sync` -/

/-- The name lookups. The loop has no bound of its own: it looks at the address only. -/
def lookupLoop (B : Build) (dnsPtr : Nat) (sntpServerName : CStr) : Nat → ULONG → M (UINT × ULONG)
  | 0, _ => .stop .fuel
  | fuel + 1, address => do
    let lookup ← (.call (Op.nxDnsHostByNameGet dnsPtr sntpServerName (5 * B.nxIpPeriodicRate)) :
      M Lookup)
    let address := lookup.addressAfter address
    if address &&& 0xFF = 0 then
      lookupLoop B dnsPtr sntpServerName fuel address
    else
      return (lookup.status, address)

/-- Stop and delete the SNTP client and return `status`. -/
def stopAndReturn (status : UINT) : M UINT := do
  let _ ← (.call Op.nxSntpClientStop : M UINT)
  let _ ← (.call Op.nxSntpClientDelete : M UINT)
  return status

def deleteAndReturn (status : UINT) : M UINT := do
  let _ ← (.call Op.nxSntpClientDelete : M UINT)
  return status

/-- Convert the seconds of an update to the Unix epoch and end the synchronisation. -/
def acceptUpdate (B : Build) (sntpSeconds : ULONG) : M UINT := do
  let systemTimeInSecond ← systemTime B
  .modify ({ · with
    unixTimeBase := sntpSeconds - (systemTimeInSecond + unixToNtpEpochSecond) })
  stopAndReturn nxSuccess

/-- `i` polls are left. -/
def pollLoop (B : Build) : Nat → M UINT
  | 0 => stopAndReturn nxNotSuccessful
  | i + 1 => do
    let (status, serverStatus) ← (.call Op.nxSntpClientReceivingUpdates : M (UINT × UINT))
    if status = nxSuccess ∧ serverStatus = nxTrue then
      let (status, sntpSeconds) ← (.call Op.nxSntpClientGetLocalTime : M (UINT × ULONG))
      if status ≠ nxSuccess then
        -- the next poll follows at once
        pollLoop B i
      else
        acceptUpdate B sntpSeconds
    else
      let _ ← (.call (Op.txThreadSleep B.sntpUpdateInterval) : M UINT)
      pollLoop B i

/-- From the creation of the SNTP client on. -/
def runClient (B : Build) (ipPtr poolPtr : Nat) (sntpServerAddress : ULONG) : M UINT := do
  let status ← (.call (Op.nxSntpClientCreate ipPtr poolPtr) : M UINT)
  if status ≠ nxSuccess then
    return status
  let status ← (.call (Op.nxSntpClientInitializeUnicast sntpServerAddress) : M UINT)
  if status ≠ nxSuccess then
    deleteAndReturn status
  else
    let status ← (.call (Op.nxSntpClientSetLocalTime 0 0) : M UINT)
    if status ≠ nxSuccess then
      deleteAndReturn status
    else
      let status ← (.call Op.nxSntpClientRunUnicast : M UINT)
      if status ≠ nxSuccess then
        stopAndReturn status
      else
        pollLoop B B.sntpUpdateMax

/-- `stack` is what the variable for the server's address holds before the first lookup. -/
def sntpTimeSync (B : Build) (fuel : Nat) (stack : ULONG) (ipPtr poolPtr dnsPtr : Nat)
    (sntpServerName : CStr) : M UINT := do
  let (status, sntpServerAddress) ← lookupLoop B dnsPtr sntpServerName fuel stack
  if status ≠ nxSuccess then
    return status
  runClient B ipPtr poolPtr sntpServerAddress

end Iotc.Time
