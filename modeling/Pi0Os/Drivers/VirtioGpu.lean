import Pi0Os.Kernel.IntrusiveList
import Pi0Os.Library.Slice
import Pi0Os.Library.TransitionSystem
import Pi0Os.Drivers.SplitVirtQueue

/-! `cmd_send_receive` and `handle_irq` of `virtiogpu.cpp`, beside the device. -/

namespace Pi0Os.Drivers

open Kernel Library

/-- The locals of a call of `cmd_send_receive`; `storage` is the number of the page. -/
structure GpuCommand where
  cmd : List UInt8
  respSize : ℕ
  cmdDescIdx : ℕ
  respDescIdx : ℕ
  storage : ℕ
  completed : Bool -- `is_taken` of the lock in the request
  woken : ℕ -- ghost: how often the handler has released the lock
  answer : Option (List UInt8 × List UInt8) -- ghost: the command that the device read and its response

def GpuCommand.cmdPaAddr (c : GpuCommand) : ℕ := c.storage * size4KB

def GpuCommand.respPaAddr (c : GpuCommand) : ℕ := c.cmdPaAddr + roundUp32 c.cmd.length 8

/-- How far a call has come. -/
inductive CommandStage where
  | prepared
  | listed
  | waiting
  | copied (resp : List UInt8)

/-- A thread: it has not called, is in the call, or has got its result. -/
inductive GpuCaller where
  | idle
  | calling (c : GpuCommand) (stage : CommandStage)
  | failed (rc : ℤ)
  | succeeded (c : GpuCommand) (resp : List UInt8)

def GpuCaller.isCalling : GpuCaller → Bool
  | .calling _ _ => true
  | _ => false

/-- `request.head_descriptor_idx == desc_idx` for the request on the stack of the thread. -/
def GpuCaller.hasHead (descIdx : ℕ) : GpuCaller → Bool
  | .calling c _ => c.cmdDescIdx = descIdx
  | _ => false

def GpuCaller.release : GpuCaller → GpuCaller
  | .calling c stage => .calling { c with completed := false, woken := c.woken + 1 } stage
  | caller => caller

/-- Where the handler is: outside, at the test of the loop, or before the write to `InterruptAck`. -/
inductive GpuHandler where
  | idle
  | loop (idx used : ℕ)
  | acking

/-- Requests are named by the threads that have them on their stacks. -/
structure VirtioGpu where
  q : SplitVirtQueue
  pendingRequests : IntrusiveLinkedList
  callers : ℕ → GpuCaller
  pages : Finset ℕ -- given out by `physical_page_alloc`
  mem : ℕ → UInt8
  usedBuffer : Bool -- `VIRTIO_IRQ_USED_BUFFER` in `InterruptStatus`
  handler : GpuHandler
  lastAvailIdx : ℕ -- the device's own index
  held : List ℕ -- the heads of the chains that the device has taken
  answers : ℕ → Option (List UInt8 × List UInt8) -- ghost: for the last chain with this head

section

variable (s : VirtioGpu)

def VirtioGpu.setCaller (t : ℕ) (caller : GpuCaller) : VirtioGpu :=
  { s with callers := Function.update s.callers t caller }

/-- The two descriptors of a command. -/
def describeCommand (q : SplitVirtQueue) (c : GpuCommand) : SplitVirtQueue :=
  let q := q.setDesc c.cmdDescIdx ⟨c.cmdPaAddr, c.cmd.length, virtqDescFNext, le16 c.respDescIdx⟩
  q.setDesc c.respDescIdx ⟨c.respPaAddr, c.respSize, virtqDescFWrite, 0⟩

/-- The frees after `cleanup:` of what is not null or negative. -/
def cleanupCommand (cmdDescIdx respDescIdx : ℤ) (storage : Option ℕ) : VirtioGpu :=
  let q := if 0 ≤ cmdDescIdx then s.q.freeDesc cmdDescIdx else s.q
  let q := if 0 ≤ respDescIdx then q.freeDesc respDescIdx else q
  { s with q := q, pages := storage.elim s.pages s.pages.erase }

/-- `cmd_send_receive` up to where the request goes into the list; `page` is the answer of the allocator. -/
def startCommand (t : ℕ) (cmd : List UInt8) (respSize : ℕ) (page : Option ℕ) : Except Panic VirtioGpu := do
  kassert "round_up(cmd_size, 8) + resp_size < 4096" (add32 (roundUp32 cmd.length 8) respSize < 4096)
  let (cmdDescIdx, q) := s.q.allocDesc
  let (respDescIdx, q) := q.allocDesc
  let s := { s with q := q }
  if cmdDescIdx < 0 ∨ respDescIdx < 0 then
    return (cleanupCommand s cmdDescIdx respDescIdx none).setCaller t (.failed (-Err.noMem))
  match page with
  | none => return (cleanupCommand s cmdDescIdx respDescIdx none).setCaller t (.failed (-Err.noMem))
  | some storage =>
    let c : GpuCommand := ⟨cmd, respSize, cmdDescIdx.toNat, respDescIdx.toNat, storage, true, 0, none⟩
    return VirtioGpu.setCaller
      { s with
        q := describeCommand s.q c
        pages := insert storage s.pages
        mem := overwrite s.mem c.cmdPaAddr cmd } t (.calling c .prepared)

/-- The callback of `handle_irq`. -/
def handleUsedDescriptor (descIdx : ℕ) : Except Panic VirtioGpu := do
  let filter t := (s.callers t).hasHead descIdx
  match ← s.pendingRequests.findFirst (fun t => (s.callers t).isCalling) filter s.q.size s.pendingRequests.head with
  | none => return s
  | some t =>
    return VirtioGpu.setCaller { s with pendingRequests := s.pendingRequests.remove t } t (s.callers t).release

/-- The device answers the chain at `head`, with no more than the response descriptor has room for. -/
def completeCommand (head : ℕ) (resp : List UInt8) : VirtioGpu :=
  let cmdDesc := s.q.descTable head
  let respDesc := s.q.descTable cmdDesc.next
  { s with
    q := { s.q with
      usedRing := Function.update s.q.usedRing (s.q.usedIdx % s.q.size) ⟨head, resp.length⟩
      usedIdx := le16 (s.q.usedIdx + 1) }
    mem := overwrite s.mem respDesc.addr resp
    usedBuffer := true
    held := s.held.erase head
    answers := Function.update s.answers head (some (slice s.mem cmdDesc.addr cmdDesc.len, resp)) }

end

inductive GpuAct where
  | start (t : ℕ) (cmd : List UInt8) (respSize : ℕ) (page : Option ℕ)
  | add (t : ℕ)
  | enqueue (t : ℕ)
  | take (t : ℕ)
  | cleanup (t : ℕ)
  | fetch
  | complete (head : ℕ) (resp : List UInt8)
  | enter
  | used
  | leave
  | ack

/-- The kernel is left in `mutex_take` only, and no thread runs while the handler does; the device goes
on at any time. A command and its response are objects of the caller, of less than `2 ^ 31` bytes. -/
inductive GpuStep : VirtioGpu → GpuAct → VirtioGpu → Prop
  | start {s s' t cmd respSize page} : s.handler = .idle → (s.callers t).isCalling = false →
      cmd.length < 2 ^ 31 → respSize < 2 ^ 31 → (∀ p, page = some p → p ∉ s.pages) →
      startCommand s t cmd respSize page = .ok s' → GpuStep s (.start t cmd respSize page) s'
  | add {s t c} : s.handler = .idle → s.callers t = .calling c .prepared →
      GpuStep s (.add t) (VirtioGpu.setCaller { s with pendingRequests := s.pendingRequests.add t } t
        (.calling c .listed))
  | enqueue {s t c} : s.handler = .idle → s.callers t = .calling c .listed →
      GpuStep s (.enqueue t) (VirtioGpu.setCaller { s with
        q := s.q.enqueueDesc c.cmdDescIdx
        answers := Function.update s.answers c.cmdDescIdx none } t (.calling c .waiting))
  | take {s t c} : s.handler = .idle → s.callers t = .calling c .waiting → c.completed = false →
      GpuStep s (.take t) (s.setCaller t (.calling { c with completed := true, answer := s.answers c.cmdDescIdx }
        (.copied (slice s.mem c.respPaAddr c.respSize))))
  | cleanup {s t c resp} : s.handler = .idle → s.callers t = .calling c (.copied resp) →
      GpuStep s (.cleanup t)
        ((cleanupCommand s c.cmdDescIdx c.respDescIdx (some c.storage)).setCaller t (.succeeded c resp))
  | fetch {s} : s.lastAvailIdx ≠ s.q.availIdx →
      GpuStep s .fetch { s with
        held := s.q.availRing (s.lastAvailIdx % s.q.size) :: s.held
        lastAvailIdx := le16 (s.lastAvailIdx + 1) }
  | complete {s head resp} : head ∈ s.held →
      resp.length ≤ (s.q.descTable (s.q.descTable head).next).len →
      GpuStep s (.complete head resp) (completeCommand s head resp)
  | enter {s} : s.handler = .idle →
      GpuStep s .enter { s with
        handler := if s.usedBuffer then .loop s.q.lastSeenUsedIdx (s.q.usedIdx % s.q.size) else .acking }
  | used {s s' idx used} : s.handler = .loop idx used → idx ≠ used →
      handleUsedDescriptor s (s.q.usedRing idx).id = .ok s' →
      GpuStep s .used { s' with handler := .loop ((idx + 1) % s.q.size) used }
  | leave {s idx used} : s.handler = .loop idx used → idx = used →
      GpuStep s .leave { s with q := { s.q with lastSeenUsedIdx := used }, handler := .acking }
  | ack {s} : s.handler = .acking → GpuStep s .ack { s with usedBuffer := false, handler := .idle }

/-- After `init`: the control queue is as allocated, and the driver and the device start with equal
indices. `size` divides `2 ^ 16`, as the size that a device announces is a power of two. -/
def virtioGpu : TransitionSystem VirtioGpu GpuAct where
  Init s := (∃ q size, s.q = SplitVirtQueue.virtqAlloc q size ∧ size ≤ 4 ∧ size ∣ 2 ^ 16) ∧
    s.q.usedIdx < 2 ^ 16 ∧ s.q.usedIdx % s.q.size = 0 ∧ s.q.availIdx < 2 ^ 16 ∧ s.lastAvailIdx = s.q.availIdx ∧
    s.pendingRequests.head = none ∧ s.pendingRequests.tail = none ∧ (∀ t, s.callers t = .idle) ∧ s.pages = ∅ ∧
    s.handler = .idle ∧ s.held = []
  Step := GpuStep

end Pi0Os.Drivers
