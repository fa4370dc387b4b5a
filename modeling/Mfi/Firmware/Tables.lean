import Mfi.Core.Program

/-!
# The register tables of the firmware

Each entry is the address of a device, a register of it and the value that the register gets.
-/

namespace Mfi.Firmware

/-- `i2c_registers_t`. -/
structure I2cRegister where
  addr : BitVec 8
  reg : BitVec 8
  value : BitVec 8
  deriving DecidableEq

def si5332FhdRegisters : List I2cRegister := [
  ⟨0xD4, 0x06, 0x01⟩, ⟨0xD4, 0x17, 0x00⟩, ⟨0xD4, 0x18, 0x00⟩, ⟨0xD4, 0x19, 0x00⟩,
  ⟨0xD4, 0x1A, 0x00⟩, ⟨0xD4, 0x1B, 0x00⟩, ⟨0xD4, 0x1C, 0x00⟩, ⟨0xD4, 0x21, 0x6A⟩,
  ⟨0xD4, 0x24, 0x01⟩, ⟨0xD4, 0x25, 0x00⟩, ⟨0xD4, 0x26, 0x50⟩, ⟨0xD4, 0x29, 0x60⟩,
  ⟨0xD4, 0x2A, 0x00⟩, ⟨0xD4, 0x2B, 0x19⟩, ⟨0xD4, 0x36, 0x09⟩, ⟨0xD4, 0x37, 0x42⟩,
  ⟨0xD4, 0x38, 0x00⟩, ⟨0xD4, 0x39, 0x0A⟩, ⟨0xD4, 0x3A, 0x00⟩, ⟨0xD4, 0x3B, 0x1B⟩,
  ⟨0xD4, 0x3C, 0x00⟩, ⟨0xD4, 0x48, 0x00⟩, ⟨0xD4, 0x4E, 0x10⟩, ⟨0xD4, 0x4F, 0xD5⟩,
  ⟨0xD4, 0x50, 0x00⟩, ⟨0xD4, 0x51, 0xE3⟩, ⟨0xD4, 0x52, 0x01⟩, ⟨0xD4, 0x53, 0x29⟩,
  ⟨0xD4, 0x54, 0x00⟩, ⟨0xD4, 0x60, 0x00⟩, ⟨0xD4, 0x67, 0x19⟩, ⟨0xD4, 0x68, 0x00⟩,
  ⟨0xD4, 0x69, 0x00⟩, ⟨0xD4, 0x6A, 0x00⟩, ⟨0xD4, 0x6B, 0x00⟩, ⟨0xD4, 0x6C, 0x01⟩,
  ⟨0xD4, 0x73, 0x00⟩, ⟨0xD4, 0x74, 0x00⟩, ⟨0xD4, 0x75, 0x01⟩, ⟨0xD4, 0x7A, 0x06⟩,
  ⟨0xD4, 0x7B, 0x01⟩, ⟨0xD4, 0x7C, 0x00⟩, ⟨0xD4, 0x7D, 0x00⟩, ⟨0xD4, 0x7F, 0x09⟩,
  ⟨0xD4, 0x80, 0x01⟩, ⟨0xD4, 0x81, 0x00⟩, ⟨0xD4, 0x82, 0x00⟩, ⟨0xD4, 0x89, 0x07⟩,
  ⟨0xD4, 0x8B, 0x00⟩, ⟨0xD4, 0x8C, 0x00⟩, ⟨0xD4, 0x98, 0x07⟩, ⟨0xD4, 0x9A, 0x00⟩,
  ⟨0xD4, 0x9B, 0x00⟩, ⟨0xD4, 0xA7, 0x06⟩, ⟨0xD4, 0xA8, 0x01⟩, ⟨0xD4, 0xA9, 0x00⟩,
  ⟨0xD4, 0xAA, 0x00⟩, ⟨0xD4, 0xAC, 0x06⟩, ⟨0xD4, 0xAD, 0x01⟩, ⟨0xD4, 0xAE, 0x00⟩,
  ⟨0xD4, 0xAF, 0x00⟩, ⟨0xD4, 0xB6, 0x03⟩, ⟨0xD4, 0xB7, 0x06⟩, ⟨0xD4, 0xB9, 0x02⟩,
  ⟨0xD4, 0xBA, 0x1E⟩, ⟨0xD4, 0xBB, 0x0C⟩, ⟨0xD4, 0xBC, 0x48⟩, ⟨0xD4, 0xBD, 0x00⟩,
  ⟨0xD4, 0xBE, 0x20⟩, ⟨0xD4, 0x06, 0x02⟩]

def si5332XgaRegisters : List I2cRegister := [
  ⟨0xD4, 0x06, 0x01⟩, ⟨0xD4, 0x17, 0x00⟩, ⟨0xD4, 0x18, 0x00⟩, ⟨0xD4, 0x19, 0x00⟩,
  ⟨0xD4, 0x1A, 0x00⟩, ⟨0xD4, 0x1B, 0x00⟩, ⟨0xD4, 0x1C, 0x00⟩, ⟨0xD4, 0x21, 0x6A⟩,
  ⟨0xD4, 0x24, 0x01⟩, ⟨0xD4, 0x25, 0x00⟩, ⟨0xD4, 0x29, 0x10⟩, ⟨0xD4, 0x2A, 0x00⟩,
  ⟨0xD4, 0x2B, 0x1A⟩, ⟨0xD4, 0x2D, 0x28⟩, ⟨0xD4, 0x3C, 0x00⟩, ⟨0xD4, 0x48, 0x00⟩,
  ⟨0xD4, 0x54, 0x00⟩, ⟨0xD4, 0x60, 0x00⟩, ⟨0xD4, 0x67, 0x1A⟩, ⟨0xD4, 0x68, 0x00⟩,
  ⟨0xD4, 0x69, 0x00⟩, ⟨0xD4, 0x6A, 0x00⟩, ⟨0xD4, 0x6B, 0x00⟩, ⟨0xD4, 0x6C, 0x01⟩,
  ⟨0xD4, 0x73, 0x00⟩, ⟨0xD4, 0x74, 0x00⟩, ⟨0xD4, 0x75, 0x01⟩, ⟨0xD4, 0x7A, 0x06⟩,
  ⟨0xD4, 0x7B, 0x01⟩, ⟨0xD4, 0x7C, 0x00⟩, ⟨0xD4, 0x7D, 0x00⟩, ⟨0xD4, 0x7F, 0x09⟩,
  ⟨0xD4, 0x81, 0x00⟩, ⟨0xD4, 0x82, 0x00⟩, ⟨0xD4, 0x89, 0x07⟩, ⟨0xD4, 0x8B, 0x00⟩,
  ⟨0xD4, 0x8C, 0x00⟩, ⟨0xD4, 0x98, 0x07⟩, ⟨0xD4, 0x9A, 0x00⟩, ⟨0xD4, 0x9B, 0x00⟩,
  ⟨0xD4, 0xA7, 0x06⟩, ⟨0xD4, 0xA8, 0x01⟩, ⟨0xD4, 0xA9, 0x00⟩, ⟨0xD4, 0xAA, 0x00⟩,
  ⟨0xD4, 0xAC, 0x06⟩, ⟨0xD4, 0xAD, 0x01⟩, ⟨0xD4, 0xAE, 0x00⟩, ⟨0xD4, 0xAF, 0x00⟩,
  ⟨0xD4, 0xB6, 0x01⟩, ⟨0xD4, 0xB7, 0x06⟩, ⟨0xD4, 0xB9, 0x02⟩, ⟨0xD4, 0xBA, 0x7C⟩,
  ⟨0xD4, 0xBB, 0x0E⟩, ⟨0xD4, 0xBC, 0x4A⟩, ⟨0xD4, 0xBD, 0x00⟩, ⟨0xD4, 0xBE, 0x20⟩,
  ⟨0xD4, 0x06, 0x02⟩]

def si5332VgaRegisters : List I2cRegister := [
  ⟨0xD4, 0x06, 0x01⟩, ⟨0xD4, 0x17, 0x00⟩, ⟨0xD4, 0x18, 0x00⟩, ⟨0xD4, 0x19, 0x00⟩,
  ⟨0xD4, 0x1A, 0x00⟩, ⟨0xD4, 0x1B, 0x00⟩, ⟨0xD4, 0x1C, 0x00⟩, ⟨0xD4, 0x21, 0x6A⟩,
  ⟨0xD4, 0x24, 0x01⟩, ⟨0xD4, 0x25, 0x00⟩, ⟨0xD4, 0x29, 0x10⟩, ⟨0xD4, 0x2A, 0x00⟩,
  ⟨0xD4, 0x2B, 0x1A⟩, ⟨0xD4, 0x2D, 0x64⟩, ⟨0xD4, 0x3C, 0x00⟩, ⟨0xD4, 0x48, 0x00⟩,
  ⟨0xD4, 0x54, 0x00⟩, ⟨0xD4, 0x60, 0x00⟩, ⟨0xD4, 0x67, 0x1A⟩, ⟨0xD4, 0x68, 0x00⟩,
  ⟨0xD4, 0x69, 0x00⟩, ⟨0xD4, 0x6A, 0x00⟩, ⟨0xD4, 0x6B, 0x00⟩, ⟨0xD4, 0x6C, 0x01⟩,
  ⟨0xD4, 0x73, 0x00⟩, ⟨0xD4, 0x74, 0x00⟩, ⟨0xD4, 0x75, 0x01⟩, ⟨0xD4, 0x7A, 0x06⟩,
  ⟨0xD4, 0x7B, 0x01⟩, ⟨0xD4, 0x7C, 0x00⟩, ⟨0xD4, 0x7D, 0x00⟩, ⟨0xD4, 0x7F, 0x09⟩,
  ⟨0xD4, 0x81, 0x00⟩, ⟨0xD4, 0x82, 0x00⟩, ⟨0xD4, 0x89, 0x07⟩, ⟨0xD4, 0x8B, 0x00⟩,
  ⟨0xD4, 0x8C, 0x00⟩, ⟨0xD4, 0x98, 0x07⟩, ⟨0xD4, 0x9A, 0x00⟩, ⟨0xD4, 0x9B, 0x00⟩,
  ⟨0xD4, 0xA7, 0x06⟩, ⟨0xD4, 0xA8, 0x01⟩, ⟨0xD4, 0xA9, 0x00⟩, ⟨0xD4, 0xAA, 0x00⟩,
  ⟨0xD4, 0xAC, 0x06⟩, ⟨0xD4, 0xAD, 0x01⟩, ⟨0xD4, 0xAE, 0x00⟩, ⟨0xD4, 0xAF, 0x00⟩,
  ⟨0xD4, 0xB6, 0x01⟩, ⟨0xD4, 0xB7, 0x06⟩, ⟨0xD4, 0xB9, 0x02⟩, ⟨0xD4, 0xBA, 0x7C⟩,
  ⟨0xD4, 0xBB, 0x0E⟩, ⟨0xD4, 0xBC, 0x4A⟩, ⟨0xD4, 0xBD, 0x00⟩, ⟨0xD4, 0xBE, 0x20⟩,
  ⟨0xD4, 0x06, 0x02⟩]

def tmds171Registers : List I2cRegister := [
  ⟨0xBC, 0xFF, 0x00⟩, ⟨0xBC, 0x0D, 0x01⟩, ⟨0xBC, 0x0C, 0x00⟩, ⟨0xBC, 0x0B, 0x08⟩,
  ⟨0xBC, 0x0A, 0x33⟩, ⟨0xBC, 0x0A, 0x37⟩, ⟨0xBC, 0x09, 0x1E⟩, ⟨0xBC, 0x09, 0x16⟩]

def adv7613Registers : List I2cRegister := [
  ⟨0x98, 0xF4, 0x80⟩, ⟨0x98, 0xF5, 0x7C⟩, ⟨0x98, 0xF8, 0x4C⟩, ⟨0x98, 0xF9, 0x64⟩,
  ⟨0x98, 0xFA, 0x6C⟩, ⟨0x98, 0xFB, 0x68⟩, ⟨0x98, 0xFD, 0x44⟩, ⟨0x98, 0xE9, 0xC0⟩,
  ⟨0x98, 0x00, 0x06⟩, ⟨0x98, 0x01, 0x22⟩, ⟨0x98, 0x02, 0xF2⟩, ⟨0x98, 0x03, 0x42⟩,
  ⟨0x98, 0x04, 0x63⟩, ⟨0x98, 0x05, 0x20⟩, ⟨0x44, 0x8B, 0x40⟩, ⟨0x44, 0x8C, 0x01⟩,
  ⟨0x44, 0x8D, 0x01⟩, ⟨0x44, 0xC9, 0x00⟩, ⟨0x98, 0x0C, 0x42⟩, ⟨0x98, 0x15, 0xAE⟩,
  ⟨0x44, 0x6C, 0x00⟩, ⟨0x64, 0x40, 0x81⟩, ⟨0x68, 0x03, 0x98⟩, ⟨0x98, 0x20, 0x80⟩,
  ⟨0x68, 0x6C, 0x01⟩, ⟨0x68, 0x10, 0xA5⟩, ⟨0x68, 0x1B, 0x18⟩, ⟨0x68, 0x45, 0x04⟩,
  ⟨0x68, 0x48, 0x40⟩, ⟨0x68, 0x97, 0xC0⟩, ⟨0x68, 0x3D, 0x10⟩, ⟨0x68, 0x3E, 0x7B⟩,
  ⟨0x68, 0x3F, 0x5E⟩, ⟨0x68, 0x4E, 0xFE⟩, ⟨0x68, 0x4F, 0x08⟩, ⟨0x68, 0x57, 0xA3⟩,
  ⟨0x68, 0x58, 0x07⟩, ⟨0x68, 0x6F, 0x08⟩, ⟨0x68, 0x83, 0xFE⟩, ⟨0x68, 0x85, 0x10⟩,
  ⟨0x68, 0x86, 0x9B⟩, ⟨0x68, 0x89, 0x01⟩, ⟨0x68, 0x9B, 0x03⟩, ⟨0x68, 0x9C, 0x80⟩,
  ⟨0x68, 0x9C, 0xC0⟩, ⟨0x68, 0x9C, 0x00⟩, ⟨0x68, 0x83, 0xFE⟩, ⟨0x68, 0x01, 0x00⟩,
  ⟨0x68, 0x6C, 0xA3⟩, ⟨0xC0, 0x40, 0x08⟩, ⟨0xC0, 0x43, 0x03⟩, ⟨0xC0, 0x44, 0x00⟩,
  ⟨0xC0, 0x45, 0x04⟩, ⟨0xC0, 0x46, 0x53⟩, ⟨0xC0, 0x47, 0x03⟩, ⟨0xC0, 0x4C, 0x19⟩,
  ⟨0xC0, 0x4E, 0x04⟩, ⟨0x98, 0xBF, 0x01⟩, ⟨0x64, 0x74, 0x00⟩, ⟨0x6C, 0x00, 0x00⟩,
  ⟨0x6C, 0x01, 0xFF⟩, ⟨0x6C, 0x02, 0xFF⟩, ⟨0x6C, 0x03, 0xFF⟩, ⟨0x6C, 0x04, 0xFF⟩,
  ⟨0x6C, 0x05, 0xFF⟩, ⟨0x6C, 0x06, 0xFF⟩, ⟨0x6C, 0x07, 0x00⟩, ⟨0x6C, 0x08, 0x10⟩,
  ⟨0x6C, 0x09, 0xAC⟩, ⟨0x6C, 0x0A, 0xDB⟩, ⟨0x6C, 0x0B, 0xA0⟩, ⟨0x6C, 0x0C, 0x49⟩,
  ⟨0x6C, 0x0D, 0x48⟩, ⟨0x6C, 0x0E, 0x4D⟩, ⟨0x6C, 0x0F, 0x33⟩, ⟨0x6C, 0x10, 0x26⟩,
  ⟨0x6C, 0x11, 0x1C⟩, ⟨0x6C, 0x12, 0x01⟩, ⟨0x6C, 0x13, 0x04⟩, ⟨0x6C, 0x14, 0xA5⟩,
  ⟨0x6C, 0x15, 0x35⟩, ⟨0x6C, 0x16, 0x1E⟩, ⟨0x6C, 0x17, 0x78⟩, ⟨0x6C, 0x18, 0x3A⟩,
  ⟨0x6C, 0x19, 0x05⟩, ⟨0x6C, 0x1A, 0x65⟩, ⟨0x6C, 0x1B, 0xA7⟩, ⟨0x6C, 0x1C, 0x56⟩,
  ⟨0x6C, 0x1D, 0x52⟩, ⟨0x6C, 0x1E, 0x9C⟩, ⟨0x6C, 0x1F, 0x27⟩, ⟨0x6C, 0x20, 0x0F⟩,
  ⟨0x6C, 0x21, 0x50⟩, ⟨0x6C, 0x22, 0x54⟩, ⟨0x6C, 0x23, 0xA5⟩, ⟨0x6C, 0x24, 0x4B⟩,
  ⟨0x6C, 0x25, 0x00⟩, ⟨0x6C, 0x26, 0x71⟩, ⟨0x6C, 0x27, 0x4F⟩, ⟨0x6C, 0x28, 0x81⟩,
  ⟨0x6C, 0x29, 0x80⟩, ⟨0x6C, 0x2A, 0xA9⟩, ⟨0x6C, 0x2B, 0xC0⟩, ⟨0x6C, 0x2C, 0xD1⟩,
  ⟨0x6C, 0x2D, 0xC0⟩, ⟨0x6C, 0x2E, 0x01⟩, ⟨0x6C, 0x2F, 0x01⟩, ⟨0x6C, 0x30, 0x01⟩,
  ⟨0x6C, 0x31, 0x01⟩, ⟨0x6C, 0x32, 0x01⟩, ⟨0x6C, 0x33, 0x01⟩, ⟨0x6C, 0x34, 0x01⟩,
  ⟨0x6C, 0x35, 0x01⟩, ⟨0x6C, 0x36, 0x02⟩, ⟨0x6C, 0x37, 0x3A⟩, ⟨0x6C, 0x38, 0x80⟩,
  ⟨0x6C, 0x39, 0x18⟩, ⟨0x6C, 0x3A, 0x71⟩, ⟨0x6C, 0x3B, 0x38⟩, ⟨0x6C, 0x3C, 0x2D⟩,
  ⟨0x6C, 0x3D, 0x40⟩, ⟨0x6C, 0x3E, 0x58⟩, ⟨0x6C, 0x3F, 0x2C⟩, ⟨0x6C, 0x40, 0x45⟩,
  ⟨0x6C, 0x41, 0x00⟩, ⟨0x6C, 0x42, 0x0F⟩, ⟨0x6C, 0x43, 0x28⟩, ⟨0x6C, 0x44, 0x21⟩,
  ⟨0x6C, 0x45, 0x00⟩, ⟨0x6C, 0x46, 0x00⟩, ⟨0x6C, 0x47, 0x1E⟩, ⟨0x6C, 0x48, 0x00⟩,
  ⟨0x6C, 0x49, 0x00⟩, ⟨0x6C, 0x4A, 0x00⟩, ⟨0x6C, 0x4B, 0xFF⟩, ⟨0x6C, 0x4C, 0x00⟩,
  ⟨0x6C, 0x4D, 0x43⟩, ⟨0x6C, 0x4E, 0x57⟩, ⟨0x6C, 0x4F, 0x36⟩, ⟨0x6C, 0x50, 0x59⟩,
  ⟨0x6C, 0x51, 0x37⟩, ⟨0x6C, 0x52, 0x38⟩, ⟨0x6C, 0x53, 0x39⟩, ⟨0x6C, 0x54, 0x4C⟩,
  ⟨0x6C, 0x55, 0x33⟩, ⟨0x6C, 0x56, 0x4D⟩, ⟨0x6C, 0x57, 0x48⟩, ⟨0x6C, 0x58, 0x49⟩,
  ⟨0x6C, 0x59, 0x0A⟩, ⟨0x6C, 0x5A, 0x00⟩, ⟨0x6C, 0x5B, 0x00⟩, ⟨0x6C, 0x5C, 0x00⟩,
  ⟨0x6C, 0x5D, 0xFC⟩, ⟨0x6C, 0x5E, 0x00⟩, ⟨0x6C, 0x5F, 0x44⟩, ⟨0x6C, 0x60, 0x45⟩,
  ⟨0x6C, 0x61, 0x4C⟩, ⟨0x6C, 0x62, 0x4C⟩, ⟨0x6C, 0x63, 0x20⟩, ⟨0x6C, 0x64, 0x50⟩,
  ⟨0x6C, 0x65, 0x32⟩, ⟨0x6C, 0x66, 0x34⟩, ⟨0x6C, 0x67, 0x31⟩, ⟨0x6C, 0x68, 0x37⟩,
  ⟨0x6C, 0x69, 0x48⟩, ⟨0x6C, 0x6A, 0x0A⟩, ⟨0x6C, 0x6B, 0x20⟩, ⟨0x6C, 0x6C, 0x00⟩,
  ⟨0x6C, 0x6D, 0x00⟩, ⟨0x6C, 0x6E, 0x00⟩, ⟨0x6C, 0x6F, 0xFD⟩, ⟨0x6C, 0x70, 0x00⟩,
  ⟨0x6C, 0x71, 0x38⟩, ⟨0x6C, 0x72, 0x4C⟩, ⟨0x6C, 0x73, 0x1E⟩, ⟨0x6C, 0x74, 0x53⟩,
  ⟨0x6C, 0x75, 0x11⟩, ⟨0x6C, 0x76, 0x01⟩, ⟨0x6C, 0x77, 0x0A⟩, ⟨0x6C, 0x78, 0x20⟩,
  ⟨0x6C, 0x79, 0x20⟩, ⟨0x6C, 0x7A, 0x20⟩, ⟨0x6C, 0x7B, 0x20⟩, ⟨0x6C, 0x7C, 0x20⟩,
  ⟨0x6C, 0x7D, 0x20⟩, ⟨0x6C, 0x7E, 0x00⟩, ⟨0x6C, 0x7F, 0xF0⟩, ⟨0x64, 0x74, 0x01⟩]

def adv7181Registers : List I2cRegister := [
  ⟨0x40, 0x00, 0x0D⟩, ⟨0x40, 0x05, 0x02⟩, ⟨0x40, 0x06, 0x0C⟩, ⟨0x40, 0xC3, 0x31⟩,
  ⟨0x40, 0xC4, 0xF2⟩, ⟨0x40, 0x1D, 0x47⟩, ⟨0x40, 0x3A, 0x21⟩, ⟨0x40, 0x3B, 0x61⟩,
  ⟨0x40, 0x3C, 0x5D⟩, ⟨0x40, 0x37, 0x00⟩, ⟨0x40, 0x6A, 0x00⟩, ⟨0x40, 0x6B, 0x84⟩,
  ⟨0x40, 0xC9, 0x08⟩, ⟨0x40, 0x73, 0x90⟩, ⟨0x40, 0x7B, 0x1D⟩, ⟨0x40, 0x85, 0x03⟩,
  ⟨0x40, 0x86, 0x0B⟩, ⟨0x40, 0xF4, 0x3F⟩, ⟨0x42, 0x00, 0x0D⟩, ⟨0x42, 0x05, 0x02⟩,
  ⟨0x42, 0x06, 0x0C⟩, ⟨0x42, 0xC3, 0x31⟩, ⟨0x42, 0xC4, 0xF2⟩, ⟨0x42, 0x1D, 0x47⟩,
  ⟨0x42, 0x3A, 0x21⟩, ⟨0x42, 0x3B, 0x61⟩, ⟨0x42, 0x3C, 0x90⟩, ⟨0x42, 0x37, 0x00⟩,
  ⟨0x42, 0x6A, 0x00⟩, ⟨0x42, 0x6B, 0x84⟩, ⟨0x42, 0xC9, 0x0C⟩, ⟨0x42, 0x73, 0x90⟩,
  ⟨0x42, 0x7B, 0x1D⟩, ⟨0x42, 0x85, 0x03⟩, ⟨0x42, 0x86, 0x0B⟩, ⟨0x42, 0xF4, 0x3F⟩]

end Mfi.Firmware
