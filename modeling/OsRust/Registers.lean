import OsRust.Task
import OsRust.Lib.Bytes

/-!
The registers of a CPU, the frame a preempted thread leaves on its stack, and the assembly that
saves and restores it.

The frame is written down four times in the source: as a struct, as pushes, and as two runs of
pops. Each is here as it stands there, and then shown to be the same frame.
-/

namespace OsRust.Registers

open OsRust.Task OsRust.Lib.Bytes

/-- The general registers, `rsp` aside. -/
inductive Reg
  | rax | rbx | rcx | rdx | rsi | rdi | rbp
  | r8 | r9 | r10 | r11 | r12 | r13 | r14 | r15
  deriving DecidableEq, Repr

structure Regs where
  gpr : Reg → UInt64
  rip : UInt64
  cs : UInt16
  rflags : UInt64
  rsp : UInt64
  ss : UInt16

/-! ### The struct -/

structure CpuRegsOnStack where
  r15 : UInt64
  r14 : UInt64
  r13 : UInt64
  r12 : UInt64
  rbp : UInt64
  rbx : UInt64
  r11 : UInt64
  r10 : UInt64
  r9 : UInt64
  r8 : UInt64
  rax : UInt64
  rcx : UInt64
  rdx : UInt64
  rsi : UInt64
  rdi : UInt64
  rip : UInt64
  cs : UInt64
  rflags : UInt64
  rsp : UInt64
  ss : UInt64

/-- The struct in memory: `repr(C)` keeps the fields in the order of their declaration. -/
def CpuRegsOnStack.words (f : CpuRegsOnStack) : List UInt64 :=
  [f.r15, f.r14, f.r13, f.r12, f.rbp, f.rbx, f.r11, f.r10, f.r9, f.r8, f.rax, f.rcx, f.rdx, f.rsi,
    f.rdi, f.rip, f.cs, f.rflags, f.rsp, f.ss]

/-- `SegmentSelector::new` of the `x86_64` crate, documented by the layout of a selector: the index
above the two bits of the privilege level and the table indicator, which is clear. -/
def segmentSelector (index rpl : UInt16) : UInt16 := index <<< 3 ||| rpl

def kernelCs : UInt16 := segmentSelector 1 0

def kernelDs : UInt16 := segmentSelector 2 0

def newInsideKernel (entry stackTop : UInt64) : Res CpuRegsOnStack :=
  if stackTop &&& 0xf = 0 then
    .ok
      { r15 := 0
        r14 := 0
        r13 := 0
        r12 := 0
        rbp := stackTop
        rbx := 0
        r11 := 0
        r10 := 0
        r9 := 0
        r8 := 0
        rax := 0
        rcx := 0
        rdx := 0
        rsi := 0
        rdi := 0
        rip := entry
        cs := kernelCs.toUInt64
        rflags := 0x202
        rsp := stackTop
        ss := kernelDs.toUInt64 }
  else .error (.panic "Stack top must be 16-byte aligned")

/-- The registers of `spawn_raw`, with the argument in `rdi`, written to the top of the stack. -/
def spawnFrame (m : Mem) (s : Stack) (entry arg : UInt64) : Res Mem := do
  let regs ← newInsideKernel entry s.getTopAddress
  let regs := { regs with rdi := arg }
  let regsAddr := s.getTopAddress - regsSize
  .ok (m.writeWords regsAddr.toNat regs.words)

/-- The registers of `new_idle`, written to the top of the stack. -/
def idleFrame (m : Mem) (s : Stack) (entry : UInt64) : Res Mem := do
  let regs ← newInsideKernel entry s.getTopAddress
  let regsAddr := s.getTopAddress - regsSize
  .ok (m.writeWords regsAddr.toNat regs.words)

/-! ### The assembly -/

inductive Instr
  | push (r : Reg)
  | pop (r : Reg)
  /-- `mov rax, gs:[thread_addr]` -/
  | movRaxThread
  /-- `mov [rax + regs], rsp` -/
  | movRegsRsp
  /-- `mov rsp, [rax + regs]` -/
  | movRspRegs
  /-- `mov rsp, {0}`, where the operand is `idle_thread.regs` -/
  | movRspIdle
  | callHandler
  | iretq

def timerInterrupt : List Instr :=
  [.push .rdi,
    .push .rsi,
    .push .rdx,
    .push .rcx,
    .push .rax,
    .push .r8,
    .push .r9,
    .push .r10,
    .push .r11,
    .push .rbx,
    .push .rbp,
    .push .r12,
    .push .r13,
    .push .r14,
    .push .r15,
    .movRaxThread,
    .movRegsRsp,
    .callHandler,
    .movRaxThread,
    .movRspRegs,
    .pop .r15,
    .pop .r14,
    .pop .r13,
    .pop .r12,
    .pop .rbp,
    .pop .rbx,
    .pop .r11,
    .pop .r10,
    .pop .r9,
    .pop .r8,
    .pop .rax,
    .pop .rcx,
    .pop .rdx,
    .pop .rsi,
    .pop .rdi,
    .iretq]

/-- The assembly of `force_switch_to_idle`. -/
def switchToIdle : List Instr :=
  [.movRspIdle,
    .pop .r15,
    .pop .r14,
    .pop .r13,
    .pop .r12,
    .pop .rbp,
    .pop .rbx,
    .pop .r11,
    .pop .r10,
    .pop .r9,
    .pop .r8,
    .pop .rax,
    .pop .rcx,
    .pop .rdx,
    .pop .rsi,
    .pop .rdi,
    .iretq]

/-! ### One frame -/

/-- The registers as the struct names them. -/
def Regs.onStack (r : Regs) : CpuRegsOnStack where
  r15 := r.gpr .r15
  r14 := r.gpr .r14
  r13 := r.gpr .r13
  r12 := r.gpr .r12
  rbp := r.gpr .rbp
  rbx := r.gpr .rbx
  r11 := r.gpr .r11
  r10 := r.gpr .r10
  r9 := r.gpr .r9
  r8 := r.gpr .r8
  rax := r.gpr .rax
  rcx := r.gpr .rcx
  rdx := r.gpr .rdx
  rsi := r.gpr .rsi
  rdi := r.gpr .rdi
  rip := r.rip
  cs := r.cs.toUInt64
  rflags := r.rflags
  rsp := r.rsp
  ss := r.ss.toUInt64

/-- What a thread starts with. -/
def initial (entry arg stackTop : UInt64) : Regs where
  gpr
    | .rdi => arg
    | .rbp => stackTop
    | _ => 0
  rip := entry
  cs := kernelCs
  rflags := 0x202
  rsp := stackTop
  ss := kernelDs

/-- The interrupt flag of `rflags`. -/
def interruptFlag : UInt64 := 0x200

/-- The general registers in the order of the frame. -/
def frameOrder : List Reg :=
  [.r15, .r14, .r13, .r12, .rbp, .rbx, .r11, .r10, .r9, .r8, .rax, .rcx, .rdx, .rsi, .rdi]

lemma mem_frameOrder (r : Reg) : r ∈ frameOrder := by
  cases r <;> decide

/-- The words the CPU pushes when it delivers an interrupt, in their order. -/
def Regs.interruptWords (r : Regs) : List UInt64 :=
  [r.ss.toUInt64, r.rsp, r.rflags, r.cs.toUInt64, r.rip]

lemma words_onStack (r : Regs) :
    r.onStack.words = frameOrder.map r.gpr ++ r.interruptWords.reverse := rfl

@[simp] lemma length_words (f : CpuRegsOnStack) : f.words.length = 20 := rfl

lemma timerInterrupt_eq :
    timerInterrupt = frameOrder.reverse.map .push ++ ([.movRaxThread, .movRegsRsp, .callHandler,
      .movRaxThread, .movRspRegs] ++ (frameOrder.map .pop ++ [.iretq])) := rfl

lemma switchToIdle_eq :
    switchToIdle = .movRspIdle :: (frameOrder.map .pop ++ [.iretq]) := rfl

lemma newInsideKernel_ok {entry top : UInt64} {f : CpuRegsOnStack} :
    newInsideKernel entry top = .ok f ↔
      top &&& 0xf = 0 ∧ f = (initial entry 0 top).onStack := by
  unfold newInsideKernel
  split
  · next h => simp [h, Regs.onStack, initial, eq_comm]
  · next h => simp [h]

/-- Both kinds of thread start from a frame that holds the registers they are to start with. -/
lemma spawnFrame_ok {m m' : Mem} {s : Stack} {entry arg : UInt64} :
    spawnFrame m s entry arg = .ok m' ↔ s.getTopAddress &&& 0xf = 0 ∧
      m' = m.writeWords (s.getTopAddress - regsSize).toNat
        (initial entry arg s.getTopAddress).onStack.words := by
  simp only [spawnFrame, bind_ok, newInsideKernel_ok, Except.ok.injEq]
  constructor
  · rintro ⟨_, ⟨h, rfl⟩, rfl⟩
    exact ⟨h, rfl⟩
  · rintro ⟨h, rfl⟩
    exact ⟨_, ⟨h, rfl⟩, rfl⟩

lemma idleFrame_ok {m m' : Mem} {s : Stack} {entry : UInt64} :
    idleFrame m s entry = .ok m' ↔ s.getTopAddress &&& 0xf = 0 ∧
      m' = m.writeWords (s.getTopAddress - regsSize).toNat
        (initial entry 0 s.getTopAddress).onStack.words := by
  simp only [idleFrame, bind_ok, newInsideKernel_ok, Except.ok.injEq]
  constructor
  · rintro ⟨_, ⟨h, rfl⟩, rfl⟩
    exact ⟨h, rfl⟩
  · rintro ⟨h, rfl⟩
    exact ⟨_, ⟨h, rfl⟩, rfl⟩

end OsRust.Registers
