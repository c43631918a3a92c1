import MatteOS.Traps.Boot
import MatteOS.Traps.TrapVector
import MatteOS.Traps.UserMode

/-!
# The hart under the kernel

The hart from trap to trap, instruction by instruction where `trap.S` runs and call by call where
the C++ code does. `sret` goes where `SPP` says.
-/

namespace MatteOS.Traps

open ByteMemory Processes Riscv

inductive Mode where
  /-- `kmain`, after `hart_init` -/
  | booting
  /-- User code, of the thread of the frame at `tf`. -/
  | user (tf : Nat)
  /-- `handle_interrupt`, with its argument in `a0`. -/
  | handling
  /-- Kernel code that a trap has interrupted. -/
  | interrupted
deriving DecidableEq

/-- The thread in user mode. -/
def Mode.thread : Mode → Option Nat
  | .user tf => some tf
  | _ => none

structure Machine where
  cpu : Cpu
  processManager : ProcessManager
  console : Devices.ConsoleDevice
  mode : Mode

/-- A trap: the context that is interrupted, the memory that the interrupted code has left, and the
cause. -/
structure Trap where
  context : Context
  memory : Memory
  scause : BitVec 64
  stval : BitVec 64

/-- The hart when it takes the trap. -/
def Trap.taken (t : Trap) (c : Cpu) : Cpu where
  x := t.context.x
  f := t.context.f
  csr
    | .sepc => t.context.sepc
    | .sstatus => t.context.sstatus
    | .scause => t.scause
    | .stval => t.stval
    | csr => c.csr csr
  memory := t.memory

namespace Machine

inductive Event where
  /-- `Scheduler::start_scheduling` -/
  | start
  /-- `m_trap_vector` up to `call handle_interrupt` -/
  | trap (t : Trap)
  /-- `handle_interrupt`, and `m_trap_vector` up to `sret` -/
  | handled (s : Surroundings)

variable (m : Machine)

def kernel : Kernel := ⟨m.cpu.memory, m.processManager, m.console⟩

/-- `System::get_current_kernel_trap_frame` -/
def kernelTf : Nat := (m.cpu.x tp).toNat

/-- The frame that `handle_interrupt` is called with. -/
def argument : Nat := (m.cpu.x a0).toNat

/-- The trap can be taken: `SPP` tells the interrupted mode, and no byte of `kernelMemory` has
changed. -/
structure Occurs (kernelMemory : Nat → Prop) (t : Trap) : Prop where
  mode : t.context.sstatus.getLsbD 8 = m.mode.thread.isNone
  zero : t.context.x 0 = 0
  memory : AgreeOn kernelMemory m.cpu.memory t.memory

/-- The registers after a C++ call that has left the kernel `k` and returns `result`. -/
structure Returned (k : Kernel) (result : Nat) (c : Cpu) : Prop where
  csr : c.csr = m.cpu.csr
  memory : c.memory = k.memory
  result : c.x a0 = .ofNat 64 result

/-- The machine after `sret` on the hart `c`, with the frame at `tf`. -/
def sret (k : Kernel) (tf : Nat) (c : Cpu) : Machine where
  cpu := c
  processManager := k.processManager
  console := k.console
  mode := if (c.csr .sstatus).getLsbD 8 then .interrupted else .user tf

/-- One event; `m_trap_vector` is at `vector`. -/
inductive Step (mmu : Mmu) (vector : BitVec 64) (kernelMemory : Nat → Prop) :
    Machine → Event → Machine → Prop where
  | start {m : Machine} {fuel tf : Nat} {k : Kernel} {c c' : Cpu} (booting : m.mode = .booting)
      (scheduled : scheduleFrame fuel m.kernelTf m.kernel = some (tf, k))
      (returned : m.Returned k tf c)
      (switched : run mmu (TrapVector.switchToUser vector) c = some c') :
      Step mmu vector kernelMemory m .start (sret k tf c')
  | trap {m : Machine} {t : Trap} {c : Cpu} (occurs : m.Occurs kernelMemory t)
      (entered : run mmu TrapVector.entry (t.taken m.cpu) = some c) :
      Step mmu vector kernelMemory m (.trap t) { m with cpu := c, mode := .handling }
  | handled {m : Machine} {s : Surroundings} {fuel next : Nat} {k : Kernel} {c c' : Cpu}
      (handling : m.mode = .handling)
      (result : handleInterrupt fuel m.kernelTf m.argument m.kernel s = some (next, k))
      (returned : m.Returned k next c) (left : run mmu TrapVector.exit c = some c') :
      Step mmu vector kernelMemory m (.handled s) (sret k next c')

end Machine

end MatteOS.Traps
