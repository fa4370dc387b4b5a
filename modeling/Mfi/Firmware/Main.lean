import Mfi.DpHotPlug
import Mfi.Firmware.I2cMaster

/-!
# The main program of the firmware

`main.c`: the devices are brought up one after the other, and then the main loop runs as long as
the memory controllers are well and the panel is the same; otherwise everything begins anew.
The accesses are those to the port and to the I2C bridge, and to the word of the shared memory
that an output depends on.
-/

namespace Mfi.Firmware

open Core DpHotPlug

def gpioDdrBotLocked : BitVec 32 := 1#32 <<< 10
def gpioDdrTopLocked : BitVec 32 := 1#32 <<< 11
def gpioDdrBotCalSuccess : BitVec 32 := 1#32 <<< 12
def gpioDdrTopCalSuccess : BitVec 32 := 1#32 <<< 13
def gpioDdrBotInitDone : BitVec 32 := 1#32 <<< 16
def gpioDdrTopInitDone : BitVec 32 := 1#32 <<< 17
def gpioLcdSizeMask : BitVec 32 := 0x000C0000#32

def gpioAdv7181Reset : BitVec 32 := 1#32 <<< 6
def gpioAdv7613Reset : BitVec 32 := 1#32 <<< 7
def gpioAdv7613Cs0 : BitVec 32 := 1#32 <<< 8
def gpioAdv7613Cs1 : BitVec 32 := 1#32 <<< 9
def gpioTmds171Oe : BitVec 32 := 1#32 <<< 10
def gpioIpResetN : BitVec 32 := 1#32 <<< 21
def gpioDdrBotGlobalReset : BitVec 32 := 1#32 <<< 23
def gpioDdrTopGlobalReset : BitVec 32 := 1#32 <<< 24
def gpioDdrBotSoftReset : BitVec 32 := 1#32 <<< 25
def gpioDdrTopSoftReset : BitVec 32 := 1#32 <<< 26

/-! ## Parts -/

def gpioSet (mask : BitVec 32) : Program Unit := .call (Op.setBits mask)

def gpioClear (mask : BitVec 32) : Program Unit := .call (Op.clearBits mask)

def usleep (us : Nat) : Program Unit := .call (Op.usleep us)

/-- A conjunction of tests of the port, each with a read of its own. -/
def allSet : List (BitVec 32) → Program Bool
  | [] => pure true
  | mask :: masks => do
      let data ← Prog.call .iordPio
      if data &&& mask ≠ 0#32 then allSet masks else pure false

def lcdSize (data : BitVec 32) : BitVec 32 := (data &&& gpioLcdSizeMask) >>> 18

def lcdTypeOf (data : BitVec 32) : BitVec 8 := (lcdSize data).setWidth 8

def si5332Registers (lcdType : BitVec 8) : List I2cRegister :=
  if lcdType = mfd15inchType then si5332FhdRegisters
  else if lcdType = mfd12inchType ∨ lcdType = mfd10inchType then si5332XgaRegisters
  else si5332VgaRegisters

def startClocks : Program (BitVec 8) := do
  gpioClear 0xFFFFFFFF#32
  usleep 10000
  gpioSet gpioIpResetN
  usleep 400000
  let data ← Prog.call .iordPio
  i2cWriteArray (si5332Registers (lcdTypeOf data))
  usleep 400000
  pure (lcdTypeOf data)

def startMemories : Program Unit := do
  gpioSet (gpioDdrBotGlobalReset ||| gpioDdrTopGlobalReset)
  usleep 400000
  gpioSet (gpioDdrBotSoftReset ||| gpioDdrTopSoftReset)
  usleep 200000
  let _ ← allSet [gpioDdrBotLocked, gpioDdrTopLocked]

def withSelect (cs : BitVec 32) (access : Program Unit) : Program Unit := do
  gpioSet cs
  access
  gpioClear cs

def writeAdv7613 (cs : BitVec 32) : Program Unit :=
  withSelect cs do
    usleep 200000
    i2cWriteArray adv7613Registers

def startVideo : Program Unit := do
  gpioSet gpioTmds171Oe
  usleep 100000
  i2cWriteArray tmds171Registers
  gpioSet gpioAdv7613Reset
  usleep 200000
  writeAdv7613 gpioAdv7613Cs0
  writeAdv7613 gpioAdv7613Cs1
  gpioSet gpioAdv7181Reset
  usleep 200000
  gpioSet gpioAdv7613Cs1
  usleep 200000
  let _ ← i2cRead 0x98 0xF5
  i2cWriteArray adv7181Registers

def releasePanel (lcdType : BitVec 8) : Program Unit :=
  if lcdType = mfd15inchType then gpioSet (gpioDpResetN ||| gpioDpHpd)
  else if lcdType = mfd12inchType ∨ lcdType = mfd10inchType then
    gpioSet (gpioLvdsResetN ||| gpioLvdsLcdScan)
  else pure ()

def lightPanel (lcdType : BitVec 8) : Program Unit :=
  if lcdType = mfd15inchType then gpioSet (gpioOut3EnN ||| gpioLcdBkltEn0 ||| gpioLcdBkltEn1)
  else if lcdType = mfd12inchType then gpioSet gpioLcdBkltEn0
  else if lcdType = mfd10inchType then gpioSet (gpioOut1EnN ||| gpioLcdBkltEn1)
  else pure ()

def startPanel (lcdType : BitVec 8) : Program Unit := do
  releasePanel lcdType
  gpioSet (gpioAvResetN ||| gpioTmdsResetN ||| gpioImx6Alpha)
  lightPanel lcdType

/-! ## The HDMI receivers in the loop -/

/-- The reads of three register maps; the first of them is looked at. -/
def readMaps : List Nat → Program (List (BitVec 8))
  | [] => pure []
  | i :: is => do
      let io ← i2cRead 0x98 (BitVec.ofNat 8 i)
      let _ ← i2cRead 0x68 (BitVec.ofNat 8 i)
      let _ ← i2cRead 0x80 (BitVec.ofNat 8 i)
      let buffIo ← readMaps is
      pure (io :: buffIo)

def getAdvInfo (cs : BitVec 8) : Program (BitVec 8) := do
  gpioClear (gpioAdv7613Cs1 ||| gpioAdv7613Cs0)
  let currCs := if cs = 1 then gpioAdv7613Cs1 else gpioAdv7613Cs0
  gpioSet currCs
  let buffIo ← readMaps (List.range 255)
  gpioClear currCs
  pure ((buffIo.getD 0x0C 0 &&& 0x20) >>> 5)

def resetFlashAdv7613 : Program Unit := do
  gpioClear gpioAdv7613Reset
  usleep 10000
  gpioSet gpioAdv7613Reset
  usleep 10000
  withSelect gpioAdv7613Cs0 (i2cWrite 0x98 0xFF 0x80)
  withSelect gpioAdv7613Cs1 (i2cWrite 0x98 0xFF 0x80)
  usleep 10000
  withSelect gpioAdv7613Cs0 (i2cWriteArray adv7613Registers)
  withSelect gpioAdv7613Cs1 (i2cWriteArray adv7613Registers)

/-! ## The loop -/

structure Vars where
  lcdType : BitVec 8
  edpTimer : BitVec 8
  heart : BitVec 8
  heartBit : BitVec 8
  deriving DecidableEq

def running (lcdType : BitVec 8) : Program Bool := do
  let well ← allSet [gpioDdrBotLocked, gpioDdrTopLocked, gpioDdrBotCalSuccess,
    gpioDdrTopCalSuccess, gpioDdrBotInitDone, gpioDdrTopInitDone]
  if well then do
    let data ← Prog.call .iordPio
    pure (decide (lcdType.setWidth 32 = lcdSize data))
  else pure false

def copyAlpha : Program Unit := do
  let alpha ← Prog.call .sysAlpha
  if alpha &&& 0x01#32 ≠ 0#32 then gpioClear gpioImx6Alpha else gpioSet gpioImx6Alpha

def showHeart (heartBit : BitVec 8) : Program Unit :=
  if heartBit ≠ 0#8 then gpioSet gpioNiosHeartBeat else gpioClear gpioNiosHeartBeat

def heartBeat (v : Vars) : Program Vars :=
  let heart := if v.heart.toNat < 1 then v.heart + 1 else 0#8
  if heart = 0#8 then do
    showHeart (~~~v.heartBit)
    pure { v with heart := heart, heartBit := ~~~v.heartBit }
  else pure { v with heart := heart }

def checkAdv7613 : Program Unit := do
  let down ← getAdvInfo 0
  if down ≠ 0#8 then resetFlashAdv7613
  else do
    let down ← getAdvInfo 1
    if down ≠ 0#8 then resetFlashAdv7613 else pure ()

/-- The port is read on a panel of 15 inches only. -/
def hotPlug (v : Vars) : Program Vars :=
  if v.lcdType = mfd15inchType then do
    let data ← Prog.call .iordPio
    if ~~~data &&& gpioDpXcvrLink ≠ 0#32 then
      if v.edpTimer.toNat < edpTimeout - 1 then pure { v with edpTimer := v.edpTimer + 1 }
      else if v.edpTimer.toNat < edpTimeout then do
        gpioClear gpioDpHpd
        pure { v with edpTimer := v.edpTimer + 1 }
      else do
        gpioSet gpioDpHpd
        pure { v with edpTimer := 0#8 }
    else pure v
  else pure v

def iteration (v : Vars) : Program Vars := do
  copyAlpha
  let v ← heartBeat v
  checkAdv7613
  let v ← hotPlug v
  usleep 10000
  pure v

/-! ## The whole program -/

inductive Place where
  | start
  | loop (v : Vars)
  deriving DecidableEq

/-- From the beginning of `main` to the loop, unless a memory clock is missing. -/
def start : Program Place := do
  let lcdType ← startClocks
  let locked ← allSet [gpioDdrBotLocked, gpioDdrTopLocked]
  if locked then do
    startMemories
    startVideo
    startPanel lcdType
    pure (.loop ⟨lcdType, 0#8, 0#8, 0#8⟩)
  else pure .start

def round : Place → Program Place
  | .start => start
  | .loop v => do
      let well ← running v.lcdType
      if well then do
        let v ← iteration v
        pure (.loop v)
      else pure .start

/-- The events of a run of the program, up to any of them. -/
def Runs (l : List (Event Op Res)) : Prop := Prog.Forever round .start l

/-! ## A board -/

/-- A board on which all is well, with a panel of 15 inches and no link to it. -/
def steadyBoard : (op : Op) → Res op
  | .iordPio => 0x000B3C00#32
  | .iord8 _ => 0#8
  | .sysAlpha => 0#32
  | .setBits _ => ()
  | .clearBits _ => ()
  | .usleep _ => ()
  | .iowr8 _ _ => ()

end Mfi.Firmware
