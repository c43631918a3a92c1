import MatteOS.Lib.ByteMemory

/-!
# Trap frames

The addresses of the fields of the `TrapFrame`, and of the `KernelTrapFrame` that extends
it, at `tf`.
-/

namespace MatteOS.Traps

namespace TrapFrame

def regs (tf i : Nat) : Nat := tf + 8 * i

def fregs (tf i : Nat) : Nat := tf + (256 + 8 * i)

def sepc (tf : Nat) : Nat := tf + 512

def sstatus (tf : Nat) : Nat := tf + 520

def scause (tf : Nat) : Nat := tf + 528

def stval (tf : Nat) : Nat := tf + 536

/-- "User/Kernel SATP, dual use" -/
def kernelSatp (tf : Nat) : Nat := tf + 544

def kernelSp (tf : Nat) : Nat := tf + 552

def kernelTrapFramePtr (tf : Nat) : Nat := tf + 560

def kernelAddr (tf : Nat) : Nat := tf + 568

/-- `sizeof(TrapFrame)` -/
def SIZE : Nat := 576

end TrapFrame

namespace KernelTrapFrame

def cpuId (tf : Nat) : Nat := tf + 576

def currentThreadId (tf : Nat) : Nat := tf + 584

def currentProcessId (tf : Nat) : Nat := tf + 592

/-- `sizeof(KernelTrapFrame)` -/
def SIZE : Nat := 600

end KernelTrapFrame

end MatteOS.Traps
