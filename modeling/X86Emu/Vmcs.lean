import X86Emu.State

/-!
# VMCS fields and VMX capabilities

Field encodings, the working copy's slots, the control bits and the capability MSRs of `vmx.rs`.
-/
namespace X86Emu

namespace Field
def guestEsSel : U32 := 0x0800
def guestCsSel : U32 := 0x0802
def guestSsSel : U32 := 0x0804
def guestDsSel : U32 := 0x0806
def guestFsSel : U32 := 0x0808
def guestGsSel : U32 := 0x080A
def guestLdtrSel : U32 := 0x080C
def guestTrSel : U32 := 0x080E
def hostEsSel : U32 := 0x0C00
def hostCsSel : U32 := 0x0C02
def hostSsSel : U32 := 0x0C04
def hostDsSel : U32 := 0x0C06
def hostFsSel : U32 := 0x0C08
def hostGsSel : U32 := 0x0C0A
def hostTrSel : U32 := 0x0C0C
def ioBitmapA : U32 := 0x2000
def ioBitmapB : U32 := 0x2002
def msrBitmap : U32 := 0x2004
def guestEfer : U32 := 0x2806
def hostEfer : U32 := 0x2C02
def pinCtls : U32 := 0x4000
def cpuCtls : U32 := 0x4002
def exceptionBitmap : U32 := 0x4004
def pfErrorMask : U32 := 0x4006
def pfErrorMatch : U32 := 0x4008
def cr3TargetCount : U32 := 0x400A
def exitCtls : U32 := 0x400C
def entryCtls : U32 := 0x4012
def entryIntrInfo : U32 := 0x4016
def entryExceptionError : U32 := 0x4018
def entryInstrLen : U32 := 0x401A
def cpuCtls2 : U32 := 0x401E
def instructionError : U32 := 0x4400
def exitReason : U32 := 0x4402
def exitIntrInfo : U32 := 0x4404
def exitIntrError : U32 := 0x4406
def idtVectoringInfo : U32 := 0x4408
def exitInstrLen : U32 := 0x440C
def guestEsLimit : U32 := 0x4800
def guestCsLimit : U32 := 0x4802
def guestSsLimit : U32 := 0x4804
def guestDsLimit : U32 := 0x4806
def guestFsLimit : U32 := 0x4808
def guestGsLimit : U32 := 0x480A
def guestLdtrLimit : U32 := 0x480C
def guestTrLimit : U32 := 0x480E
def guestGdtrLimit : U32 := 0x4810
def guestIdtrLimit : U32 := 0x4812
def guestEsAr : U32 := 0x4814
def guestCsAr : U32 := 0x4816
def guestSsAr : U32 := 0x4818
def guestDsAr : U32 := 0x481A
def guestFsAr : U32 := 0x481C
def guestGsAr : U32 := 0x481E
def guestLdtrAr : U32 := 0x4820
def guestTrAr : U32 := 0x4822
def guestInterruptibility : U32 := 0x4824
def guestActivity : U32 := 0x4826
def guestSysenterCs : U32 := 0x482A
def hostSysenterCs : U32 := 0x4C00
def cr0GuestHostMask : U32 := 0x6000
def cr4GuestHostMask : U32 := 0x6002
def cr0ReadShadow : U32 := 0x6004
def cr4ReadShadow : U32 := 0x6006
def cr3Target0 : U32 := 0x6008
def exitQualification : U32 := 0x6400
def guestLinearAddress : U32 := 0x640A
def guestCr0 : U32 := 0x6800
def guestCr3 : U32 := 0x6802
def guestCr4 : U32 := 0x6804
def guestEsBase : U32 := 0x6806
def guestCsBase : U32 := 0x6808
def guestSsBase : U32 := 0x680A
def guestDsBase : U32 := 0x680C
def guestFsBase : U32 := 0x680E
def guestGsBase : U32 := 0x6810
def guestLdtrBase : U32 := 0x6812
def guestTrBase : U32 := 0x6814
def guestGdtrBase : U32 := 0x6816
def guestIdtrBase : U32 := 0x6818
def guestDr7 : U32 := 0x681A
def guestRsp : U32 := 0x681C
def guestRip : U32 := 0x681E
def guestRflags : U32 := 0x6820
def guestSysenterEsp : U32 := 0x6824
def guestSysenterEip : U32 := 0x6826
def hostCr0 : U32 := 0x6C00
def hostCr3 : U32 := 0x6C02
def hostCr4 : U32 := 0x6C04
def hostFsBase : U32 := 0x6C06
def hostGsBase : U32 := 0x6C08
def hostTrBase : U32 := 0x6C0A
def hostGdtrBase : U32 := 0x6C0C
def hostIdtrBase : U32 := 0x6C0E
def hostSysenterEsp : U32 := 0x6C10
def hostSysenterEip : U32 := 0x6C12
def hostRsp : U32 := 0x6C14
def hostRip : U32 := 0x6C16
end Field

namespace Vmx

/-! ## Control bits -/

def featLocked : U64 := 1
def featVmxOutsideSmx : U64 := (1 : U64) <<< 2
def vmcsRevision : U32 := 0x00012345
def pinExtIntExiting : U32 := 1
def pinNmiExiting : U32 := (1 : U32) <<< 3
def pinDefault1 : U32 := 0x16
def pinAllowed1 : U32 := pinDefault1 ||| pinExtIntExiting ||| pinNmiExiting
def cpuIntWindowExiting : U32 := (1 : U32) <<< 2
def cpuTscOffsetting : U32 := (1 : U32) <<< 3
def cpuHltExiting : U32 := (1 : U32) <<< 7
def cpuInvlpgExiting : U32 := (1 : U32) <<< 9
def cpuMwaitExiting : U32 := (1 : U32) <<< 10
def cpuRdpmcExiting : U32 := (1 : U32) <<< 11
def cpuRdtscExiting : U32 := (1 : U32) <<< 12
def cpuCr3LoadExiting : U32 := (1 : U32) <<< 15
def cpuCr3StoreExiting : U32 := (1 : U32) <<< 16
def cpuCr8LoadExiting : U32 := (1 : U32) <<< 19
def cpuCr8StoreExiting : U32 := (1 : U32) <<< 20
def cpuMovDrExiting : U32 := (1 : U32) <<< 23
def cpuUncondIoExiting : U32 := (1 : U32) <<< 24
def cpuUseIoBitmaps : U32 := (1 : U32) <<< 25
def cpuUseMsrBitmaps : U32 := (1 : U32) <<< 28
def cpuMonitorExiting : U32 := (1 : U32) <<< 29
def cpuPauseExiting : U32 := (1 : U32) <<< 30
def cpuSecondaryControls : U32 := (1 : U32) <<< 31
def cpuDefault1 : U32 := 0x0401E172
def cpuAllowed1 : U32 :=
  cpuDefault1 ||| cpuIntWindowExiting ||| cpuTscOffsetting ||| cpuHltExiting ||| cpuInvlpgExiting |||
    cpuMwaitExiting ||| cpuRdpmcExiting ||| cpuRdtscExiting ||| cpuCr3LoadExiting |||
    cpuCr3StoreExiting ||| cpuCr8LoadExiting ||| cpuCr8StoreExiting ||| cpuMovDrExiting |||
    cpuUncondIoExiting ||| cpuUseIoBitmaps ||| cpuUseMsrBitmaps ||| cpuMonitorExiting |||
    cpuPauseExiting ||| cpuSecondaryControls
def cpu2Rdtscp : U32 := (1 : U32) <<< 3
def cpu2Vpid : U32 := (1 : U32) <<< 5
def cpu2WbinvdExiting : U32 := (1 : U32) <<< 6
def cpu2Allowed1 : U32 := cpu2Rdtscp ||| cpu2Vpid ||| cpu2WbinvdExiting
def exitHostAddrSpaceSize : U32 := (1 : U32) <<< 9
def exitAckIntOnExit : U32 := (1 : U32) <<< 15
def exitSavePat : U32 := (1 : U32) <<< 18
def exitLoadPat : U32 := (1 : U32) <<< 19
def exitSaveEfer : U32 := (1 : U32) <<< 20
def exitLoadEfer : U32 := (1 : U32) <<< 21
def exitDefault1 : U32 := 0x00036DFF
def exitAllowed1 : U32 :=
  exitDefault1 ||| exitHostAddrSpaceSize ||| exitAckIntOnExit ||| exitSavePat ||| exitLoadPat |||
    exitSaveEfer ||| exitLoadEfer
def entryIa32eGuest : U32 := (1 : U32) <<< 9
def entryLoadPat : U32 := (1 : U32) <<< 14
def entryLoadEfer : U32 := (1 : U32) <<< 15
def entryDefault1 : U32 := 0x000011FF
def entryAllowed1 : U32 := entryDefault1 ||| entryIa32eGuest ||| entryLoadPat ||| entryLoadEfer
def cr0Fixed0 : U64 := 0x80000021
def cr0Fixed1 : U64 := 0xFFFFFFFF
def cr4Fixed0 : U64 := u64 cr4Vmxe
def cr4Fixed1 : U64 := 0xFFFFFFFF

/-! ## Slots of the working copy -/

def highestIndex : Nat := 0x1A

/-- Slot for an encoding; `none` for one this CPU does not know. -/
def slot (enc : U32) : Option Nat :=
  let index := ((enc >>> 1) &&& 0x1FF).toNat
  if index > highestIndex ∨ enc &&& ~~~0x7FFF ≠ 0 then none
  else
    let ty := ((enc >>> 10) &&& 3).toNat
    let width := ((enc >>> 13) &&& 3).toNat
    some ((width * 4 + ty) * 32 + index)

/-- The mask of a field's width. -/
def fieldMask (enc : U32) : U64 :=
  if (enc >>> 13) &&& 3 = 0 then 0xFFFF
  else if (enc >>> 13) &&& 3 = 2 then 0xFFFFFFFF
  else 0xFFFFFFFFFFFFFFFF

/-- A read-only (exit information) field. -/
def isReadOnly (enc : U32) : Bool := (enc >>> 10) &&& 3 == 1

/-- An odd encoding: the high half of its field. -/
def isHigh (enc : U32) : Bool := enc &&& 1 == 1

def launchSlot : Nat := 31
def slots : Nat := 512

/-- What a slot holding `v` reads as through an encoding. -/
def readSlot (enc : U32) (v : U64) : U64 :=
  if isHigh enc then v >>> 32 else v &&& fieldMask enc

/-- What a slot holding `old` holds after `v` is written through an encoding. -/
def writeSlot (enc : U32) (old v : U64) : U64 :=
  if isHigh enc then old &&& (0xFFFFFFFF : U64) ||| v <<< 32
  else old &&& ~~~fieldMask enc ||| v &&& fieldMask enc

def setSlot (x : Vmx) (k : Nat) (v : U64) : Vmx :=
  { x with vmcs := fun i => if i = k then v else x.vmcs i }

/-- Read a field of the current VMCS. -/
def read (x : Vmx) (enc : U32) : U64 :=
  match slot enc with
  | some k => readSlot enc (x.vmcs k)
  | none => 0

/-- Write a field of the current VMCS. -/
def write (x : Vmx) (enc : U32) (v : U64) : Vmx :=
  match slot enc with
  | some k => x.setSlot k (writeSlot enc (x.vmcs k) v)
  | none => x

def launched (x : Vmx) : Bool := x.vmcs launchSlot != 0

def setLaunched (x : Vmx) (on : Bool) : Vmx := x.setSlot launchSlot (bit on)

/-! ## Capability MSRs -/

/-- Reserved-to-1 bits in the low half, permitted bits in the high half. -/
def ctl (allowed0 allowed1 : U32) : U64 := u64 allowed1 <<< 32 ||| u64 allowed0

def msrFeatureControl : U32 := 0x3A

def readCapabilityMsr (index : U32) : Option U64 :=
  if index = 0x480 then
    some (u64 vmcsRevision ||| (4096 : U64) <<< 32 ||| (6 : U64) <<< 50 ||| (1 : U64) <<< 54 |||
      (1 : U64) <<< 55)
  else if index = 0x481 then some (ctl pinDefault1 pinAllowed1)
  else if index = 0x482 then some (ctl cpuDefault1 cpuAllowed1)
  else if index = 0x483 then some (ctl exitDefault1 exitAllowed1)
  else if index = 0x484 then some (ctl entryDefault1 entryAllowed1)
  else if index = 0x48D then some (ctl 0 pinAllowed1)
  else if index = 0x48E then some (ctl 0 cpuAllowed1)
  else if index = 0x48F then some (ctl 0 exitAllowed1)
  else if index = 0x490 then some (ctl 0 entryAllowed1)
  else if index = 0x485 then some ((5 : U64) ||| (1 : U64) <<< 5 ||| (1 : U64) <<< 6 ||| (4 : U64) <<< 16)
  else if index = 0x486 then some cr0Fixed0
  else if index = 0x487 then some cr0Fixed1
  else if index = 0x488 then some cr4Fixed0
  else if index = 0x489 then some cr4Fixed1
  else if index = 0x48A then some (BitVec.ofNat 64 highestIndex <<< 1)
  else if index = 0x48B then some (ctl 0 cpu2Allowed1)
  else if index = 0x48C then some ((1 : U64) <<< 32 ||| (0xF : U64) <<< 40)
  else if index = 0x491 then some 0
  else none

end Vmx
end X86Emu
