import Pi0Os.Kernel.IntrusiveList
import Pi0Os.Library.TransitionSystem
import Pi0Os.Drivers.SplitVirtQueue

/-! `read_sector` and `handle_irq` of `virtioblk.cpp`, beside the device. -/

namespace Pi0Os.Drivers

open Kernel Library

/-- The links of a request are those of the list; `queue` is `m_vqueue` in all of them. -/
structure VirtioBlockRequest where
  descriptorIdx : List ℕ
  completed : Bool -- `is_taken` of the lock
  type : ℕ
  sector : ℕ
  data : ℕ
  status : ℕ

/-- The request that `read_sector` has on its stack. `s_read_tempbuffer_lock` lets one call in. -/
inductive Reader where
  | idle
  | waiting (req : ℕ)
  | returning (req : ℕ) (rc : ℤ)
deriving DecidableEq

def Reader.alive : Reader → ℕ → Bool
  | .idle, _ => false
  | .waiting req, node => node = req
  | .returning req _, node => node = req

/-- A chain given to the device, with the request it was made for. -/
structure BlockChain where
  head : ℕ
  body : ℕ
  status : ℕ
  req : ℕ
deriving DecidableEq

def BlockChain.descs (c : BlockChain) : List ℕ := [c.head, c.body, c.status]

structure VirtioBlockDevice where
  q : SplitVirtQueue
  requests : IntrusiveLinkedList
  reqs : ℕ → VirtioBlockRequest
  reader : Reader
  tempbuffer : ℕ
  virt2phys : ℕ → ℕ
  lastAvailIdx : ℕ -- the device's own index
  held : List ℕ -- the heads of the chains that the device has taken
  given : List BlockChain -- ghost: given to the device and not completed
  done : List BlockChain -- ghost: completed, and the handler has not seen it

abbrev virtioBlkTIn : ℕ := 0

-- the offsets in `VirtioBlockRequest`
abbrev headerOffset : ℕ := 24
abbrev footerOffset : ℕ := 44

section

variable (s : VirtioBlockDevice)

/-- The three descriptors of a request. -/
def VirtioBlockDevice.describe (q : SplitVirtQueue) (type buffer req header body status : ℕ) : SplitVirtQueue :=
  let q := q.setDesc header ⟨s.virt2phys (req + headerOffset), 16, virtqDescFNext, le16 body⟩
  let q := q.setDesc body ⟨s.virt2phys buffer, 512,
    virtqDescFNext ||| (if type = virtioBlkTIn then virtqDescFWrite else 0), le16 status⟩
  q.setDesc status ⟨s.virt2phys (req + footerOffset), 1, virtqDescFWrite, 0⟩

def enqueueBlockRequest (type sector buffer req : ℕ) : Except Panic (ℤ × VirtioBlockDevice) := do
  kassert "pageidx1 == pageidx2" (buffer / size4KB = (buffer + 512 - 1) / size4KB)
  let (headerIdx, q) := s.q.allocDesc
  let (bodyIdx, q) := q.allocDesc
  let (statusIdx, q) := q.allocDesc
  if headerIdx < 0 ∨ bodyIdx < 0 ∨ statusIdx < 0 then
    return (-Err.noMem, { s with q := ((q.freeDesc headerIdx).freeDesc bodyIdx).freeDesc statusIdx })
  let header := headerIdx.toNat
  let body := bodyIdx.toNat
  let status := statusIdx.toNat
  return (0, { s with
    q := (s.describe q type buffer req header body status).enqueueDesc header
    requests := s.requests.add req
    reqs := Function.update s.reqs req ⟨[le16 header, le16 body, le16 status], true, type, sector, buffer, 0⟩
    given := s.given ++ [⟨header, body, status, req⟩] })

/-- The body of the loop of `cleanup_block_request`. -/
def freeUnlessSize (q : SplitVirtQueue) (i : ℕ) : SplitVirtQueue := if i = q.size then q else q.freeDesc i

def cleanupBlockRequest (req : ℕ) : VirtioBlockDevice :=
  { s with
    requests := if (s.requests.next req).isSome then s.requests.remove req else s.requests
    q := (s.reqs req).descriptorIdx.foldl freeUnlessSize s.q }

def processUsedBuffer (idx : ℕ) : Except Panic VirtioBlockDevice := do
  let filter req := (s.reqs req).descriptorIdx[0]? = some idx
  match ← s.requests.findFirst s.reader.alive filter 2 s.requests.head with
  | none => .error (.message "Failed to find request with descriptor")
  | some req => return { s with
      reqs := Function.update s.reqs req { s.reqs req with completed := false }
      requests := s.requests.remove req }

/-- The loop of `handle_irq`, which goes round the ring once at most. -/
def handleUsed (used : ℕ) : ℕ → ℕ → VirtioBlockDevice → Except Panic VirtioBlockDevice
  | 0, _, _ => .error (.undefined "the loop does not end")
  | fuel + 1, idx, s =>
    if idx = used then .ok s
    else do
      let s ← processUsedBuffer s (s.q.usedRing idx).id
      handleUsed used fuel ((idx + 1) % s.q.size) s

def handleIrq (irqStatus : ℕ) : Except Panic VirtioBlockDevice :=
  if irqStatus &&& 1 = 0 then .ok s
  else do
    let used := s.q.usedIdx % s.q.size
    let s ← handleUsed used s.q.size s.q.lastSeenUsedIdx s
    return { s with q := { s.q with lastSeenUsedIdx := used }, done := [] }

/-- `read_sector` up to where it waits. The request is not initialised when `enqueue_block_request` fails, and
`cleanup_block_request` goes by what it finds there. -/
def startRead (sector req : ℕ) : Except Panic VirtioBlockDevice := do
  let (rc, s) ← enqueueBlockRequest s virtioBlkTIn sector s.tempbuffer req
  panicIf (.undefined "cleanup of a request that is not initialised") (rc ≠ 0)
  return { s with reader := .waiting req }

/-- The device completes a chain that it has taken. -/
def complete (c : BlockChain) (len status : ℕ) : VirtioBlockDevice :=
  { s with
    q := { s.q with
      usedRing := Function.update s.q.usedRing (s.q.usedIdx % s.q.size) ⟨c.head, len⟩
      usedIdx := le16 (s.q.usedIdx + 1) }
    reqs := Function.update s.reqs c.req { s.reqs c.req with status := status }
    held := s.held.erase c.head
    given := s.given.erase c
    done := s.done ++ [c] }

end

inductive BlockAct where
  | start (sector req : ℕ)
  | take
  | timeOut
  | cleanup
  | fetch
  | complete (c : BlockChain) (len status : ℕ)
  | irq (irqStatus : ℕ)

inductive BlockStep : VirtioBlockDevice → BlockAct → VirtioBlockDevice → Prop
  | start {s s' sector req} : s.reader = .idle → startRead s sector req = .ok s' → BlockStep s (.start sector req) s'
  | take {s req} : s.reader = .waiting req → (s.reqs req).completed = false →
      BlockStep s .take { s with
        reqs := Function.update s.reqs req { s.reqs req with completed := true }
        reader := .returning req (if (s.reqs req).status ≠ 0 then -Err.io else 0) }
  | timeOut {s req} : s.reader = .waiting req → (s.reqs req).completed = true →
      BlockStep s .timeOut { s with reader := .returning req (-Err.timedOut) }
  | cleanup {s req rc} : s.reader = .returning req rc →
      BlockStep s .cleanup { cleanupBlockRequest s req with reader := .idle }
  | fetch {s} : s.lastAvailIdx ≠ s.q.availIdx →
      BlockStep s .fetch { s with
        held := s.q.availRing (s.lastAvailIdx % s.q.size) :: s.held
        lastAvailIdx := le16 (s.lastAvailIdx + 1) }
  | complete {s c len status} : c ∈ s.given → c.head ∈ s.held →
      BlockStep s (.complete c len status) (complete s c len status)
  | irq {s s' irqStatus} : handleIrq s irqStatus = .ok s' → BlockStep s (.irq irqStatus) s'

/-- After `block_device_init`: the queue is as allocated, and the driver and the device start with
equal indices. `size` divides `2 ^ 16`, as the size that a device announces is a power of two. -/
def virtioBlock : TransitionSystem VirtioBlockDevice BlockAct where
  Init s := (∃ q size, s.q = SplitVirtQueue.virtqAlloc q size ∧ size ≤ 64 ∧ size ∣ 2 ^ 16) ∧
    s.q.usedIdx < 2 ^ 16 ∧ s.q.usedIdx % s.q.size = 0 ∧ s.q.availIdx < 2 ^ 16 ∧ s.lastAvailIdx = s.q.availIdx ∧
    s.requests.head = none ∧ s.requests.tail = none ∧ s.reader = .idle ∧ 512 ∣ s.tempbuffer ∧
    s.held = [] ∧ s.given = [] ∧ s.done = []
  Step := BlockStep

end Pi0Os.Drivers
