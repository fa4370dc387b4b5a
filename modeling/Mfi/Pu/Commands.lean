import Mathlib.Data.Nat.Notation

/-!
# The command tables of the panel unit

`pu` talks to the devices of the panel over the I2C bridge. It writes the entries of
`init_array` once and then goes through `work_array` again and again. The arrays are
packed: the entry that is written last has index 0.
-/

namespace Mfi.Pu

inductive Operation where
  | write
  | read
deriving DecidableEq

structure OpEntry where
  operation : Operation
  device : BitVec 8
  register : BitVec 8
  data : BitVec 8
deriving DecidableEq

/-! ## Devices and registers -/

def puTypeAddr : BitVec 8 := 0x42
def puTypeValue : BitVec 8 := 0x01
def puTypePolarity : BitVec 8 := 0x05
def puTypeDirection : BitVec 8 := 0x07

def puBtnAddr : BitVec 8 := 0x40
def puBtnReadH1H2H3H4H5 : BitVec 8 := 0x01
def puBtnSelV4V5V6V7V8 : BitVec 8 := 0x02
def puBtnSelV1V2V3 : BitVec 8 := 0x03
def puBtnPolarity0 : BitVec 8 := 0x04
def puBtnPolarity1 : BitVec 8 := 0x05
def puBtnDirection0 : BitVec 8 := 0x06
def puBtnDirection1 : BitVec 8 := 0x07

def puEncAddr : BitVec 8 := 0x42
def puEncValue : BitVec 8 := 0x00
def puEncPolarity : BitVec 8 := 0x04
def puEncDirection : BitVec 8 := 0x06

def puLightLeftAddr : BitVec 8 := 0x94
def puLightRightAddr : BitVec 8 := 0x96
def puLightCfg : BitVec 8 := 0x02
def puLightE3E2E1E0M7M6M5M4 : BitVec 8 := 0x03
def puLightM3M2M1M0 : BitVec 8 := 0x04

def mcuAddr : BitVec 8 := 0x60
def mcuExtLightLsb : BitVec 8 := 0x08
def mcuExtLightMsb : BitVec 8 := 0x09
def mcuPowerStatus : BitVec 8 := 0x0B

def i2cErrorAddr : BitVec 8 := 0x01
def i2cErrorReg : BitVec 8 := 0x00

/-! ## The tables -/

def statusRead : OpEntry := ⟨.read, i2cErrorAddr, i2cErrorReg, 0x00⟩

def buttonRead : OpEntry := ⟨.read, puBtnAddr, puBtnReadH1H2H3H4H5, 0x00⟩

/-- `init_array`, by index. -/
def initArray : List OpEntry := [
  ⟨.write, puEncAddr, puEncDirection, 0xFF⟩,
  ⟨.write, puEncAddr, puEncPolarity, 0x00⟩,
  ⟨.write, puBtnAddr, puBtnSelV1V2V3, 0x07⟩,
  ⟨.write, puBtnAddr, puBtnSelV4V5V6V7V8, 0x1F⟩,
  ⟨.write, puBtnAddr, puBtnDirection1, 0xF8⟩,
  ⟨.write, puBtnAddr, puBtnDirection0, 0x00⟩,
  ⟨.write, puBtnAddr, puBtnPolarity1, 0x00⟩,
  ⟨.write, puBtnAddr, puBtnPolarity0, 0x00⟩,
  ⟨.write, puLightRightAddr, puLightCfg, 0xC3⟩,
  ⟨.write, puLightLeftAddr, puLightCfg, 0xC3⟩,
  ⟨.write, puTypeAddr, puTypeDirection, 0xC0⟩,
  ⟨.write, puTypeAddr, puTypePolarity, 0x00⟩].reverse

/-- `work_array`, by index. -/
def workArray : List OpEntry := [
  statusRead,
  ⟨.read, mcuAddr, mcuExtLightLsb, 0x00⟩,
  statusRead,
  ⟨.read, mcuAddr, mcuExtLightMsb, 0x00⟩,
  statusRead,
  ⟨.read, mcuAddr, mcuPowerStatus, 0x00⟩,
  statusRead,
  ⟨.read, puLightRightAddr, puLightM3M2M1M0, 0x00⟩,
  statusRead,
  ⟨.read, puLightRightAddr, puLightE3E2E1E0M7M6M5M4, 0x00⟩,
  statusRead,
  ⟨.read, puLightLeftAddr, puLightM3M2M1M0, 0x00⟩,
  statusRead,
  ⟨.read, puLightLeftAddr, puLightE3E2E1E0M7M6M5M4, 0x00⟩,
  statusRead,
  ⟨.read, puEncAddr, puEncValue, 0x00⟩,
  ⟨.write, puBtnAddr, puBtnSelV4V5V6V7V8, 0x1F⟩,
  statusRead,
  buttonRead,
  ⟨.write, puBtnAddr, puBtnSelV4V5V6V7V8, 0x0F⟩,
  statusRead,
  buttonRead,
  ⟨.write, puBtnAddr, puBtnSelV4V5V6V7V8, 0x17⟩,
  statusRead,
  buttonRead,
  ⟨.write, puBtnAddr, puBtnSelV4V5V6V7V8, 0x1B⟩,
  statusRead,
  buttonRead,
  ⟨.write, puBtnAddr, puBtnSelV4V5V6V7V8, 0x1D⟩,
  statusRead,
  buttonRead,
  ⟨.write, puBtnAddr, puBtnSelV4V5V6V7V8, 0x1E⟩,
  ⟨.write, puBtnAddr, puBtnSelV1V2V3, 0x07⟩,
  statusRead,
  buttonRead,
  ⟨.write, puBtnAddr, puBtnSelV1V2V3, 0x06⟩,
  statusRead,
  buttonRead,
  ⟨.write, puBtnAddr, puBtnSelV1V2V3, 0x05⟩,
  statusRead,
  buttonRead,
  ⟨.write, puBtnAddr, puBtnSelV1V2V3, 0x03⟩,
  statusRead,
  ⟨.read, puTypeAddr, puTypeValue, 0x00⟩].reverse

def entryAt (table : List OpEntry) (index : BitVec 8) : OpEntry :=
  table.getD index.toNat statusRead

example : initArray.length = 12 ∧ workArray.length = 44 := by decide

end Mfi.Pu
