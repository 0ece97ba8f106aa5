import Pi0Os.Kernel.CString
import Pi0Os.Library.Slice

/-! `SimpleBlockDevice::read` of `device.cpp`. -/

namespace Pi0Os.Drivers

open Kernel Buffer Library

/-- A device read by whole sectors: `readSector i` is the code `read_sector` returns for
sector `i` and what the sector buffer holds after the call. -/
structure SimpleBlockDevice where
  blockSize : ℕ
  size : ℕ
  readSector : ℕ → ℤ × Buffer
  blockSize_pos : 0 < blockSize
  length_readSector : ∀ i, (readSector i).2.length = blockSize

namespace SimpleBlockDevice

variable (dev : SimpleBlockDevice)

/-- The last step of `read`. `ptr` is where `buffer` points to; `temp` tells whether the
head of the request has allocated `temp_buffer`. -/
def readTail (malloc : ℕ → Bool) (temp : Bool) (offset size read ptr : ℕ) (buffer : Buffer) :
    Except Panic (ℤ × Buffer) := do
  kassert "size < sector_size" (size < dev.blockSize)
  kassert "offset % sector_size == 0" (offset % dev.blockSize = 0)
  if size > 0 then
    if ¬ temp ∧ ¬ malloc dev.blockSize then return (-Err.noMem, buffer)
    let (rc, bytes) := dev.readSector (offset / dev.blockSize)
    if rc ≠ 0 then return (rc, buffer)
    let buffer ← memcpy buffer ptr (bytes.take size)
    return ((read + size : ℕ), buffer)
  else
    kassert "size == 0" (size = 0)
    return (read, buffer)

/-- `while (size >= sector_size)`, with as many rounds at hand as `fuel`. -/
def readSectors (malloc : ℕ → Bool) (temp : Bool) : ℕ → ℕ → ℕ → ℕ → ℕ → Buffer → Except Panic (ℤ × Buffer)
  | 0, _, _, _, _, _ => .error (.undefined "the loop did not end")
  | fuel + 1, offset, size, read, ptr, buffer => do
    if size ≥ dev.blockSize then
      let (rc, bytes) := dev.readSector (offset / dev.blockSize)
      let buffer ← memcpy buffer ptr bytes
      if rc ≠ 0 then return (rc, buffer)
      readSectors malloc temp fuel (offset + dev.blockSize) (size - dev.blockSize)
        (read + dev.blockSize) (ptr + dev.blockSize) buffer
    else readTail dev malloc temp offset size read ptr buffer

/-- `read`: the value returned and the caller's block afterwards. -/
def read (malloc : ℕ → Bool) (offset : ℤ) (buffer : Buffer) (size : ℕ) : Except Panic (ℤ × Buffer) := do
  let offset := (clamp 0 offset dev.size).toNat
  let size := (clamp 0 size (dev.size - offset)).toNat
  if offset % dev.blockSize ≠ 0 then
    if ¬ malloc dev.blockSize then return (-Err.noMem, buffer)
    let (rc, bytes) := dev.readSector (offset / dev.blockSize)
    if rc ≠ 0 then return (rc, buffer)
    let toRead := min size (dev.blockSize - offset % dev.blockSize)
    let buffer ← memcpy buffer 0 ((bytes.drop (offset % dev.blockSize)).take toRead)
    kassert "offset % sector_size == 0" ((offset + toRead) % dev.blockSize = 0)
    readSectors dev malloc true (size + 1) (offset + toRead) (size - toRead) toRead toRead buffer
  else
    kassert "offset % sector_size == 0" (offset % dev.blockSize = 0)
    readSectors dev malloc false (size + 1) offset size 0 0 buffer

/-- The bytes of the device. -/
def byte (i : ℕ) : UInt8 := unblock (fun k => (dev.readSector k).2) dev.blockSize i

end SimpleBlockDevice

end Pi0Os.Drivers
