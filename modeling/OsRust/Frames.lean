import OsRust.Basic
import Mathlib.Order.Interval.Finset.Nat

/-!
Physical addresses, frames and ranges of frames. An address has at most 52 bits, and a frame
and a range of frames start on a frame boundary.
-/

namespace OsRust.Frames

structure PhysAddr where
  val : ℕ
  lt : val < 2 ^ 52
  deriving DecidableEq

/-- The check stands for `PhysAddr::new` of the `x86_64` crate, which is documented to panic where one
of the bits 52 to 64 is set. -/
def PhysAddr.new (v : ℕ) : Res PhysAddr :=
  if h : v < 2 ^ 52 then .ok ⟨v, h⟩
  else .error (.panic "physical addresses must not have any bits in the range 52 to 64 set")

/-- The addition of the crate checks its sum in the same way. -/
def PhysAddr.add (a : PhysAddr) (n : ℕ) : Res PhysAddr := PhysAddr.new (a.val + n)

structure Frame where
  addr : PhysAddr
  aligned : addr.val % 4096 = 0
  deriving DecidableEq

def Frame.new (addr : PhysAddr) : Res Frame :=
  if h : addr.val % 4096 = 0 then .ok ⟨addr, h⟩
  else .error (.panic "frame address must be 4096-byte aligned")

structure FrameRange where
  start : PhysAddr
  count : ℕ
  aligned : start.val % 4096 = 0
  deriving DecidableEq

def FrameRange.new (start : PhysAddr) (count : ℕ) : Res FrameRange :=
  if h : start.val % 4096 = 0 then .ok ⟨start, count, h⟩
  else .error (.panic "frame range start address must be 4096-byte aligned")

inductive FrameAllocError
  | outOfMemory
  | notInitialized
  deriving DecidableEq

/-- The numbers of the frames of a range. -/
def FrameRange.frames (r : FrameRange) : Finset ℕ :=
  Finset.Ico (r.start.val / 4096) (r.start.val / 4096 + r.count)

lemma PhysAddr.new_ok {v : ℕ} (h : v < 2 ^ 52) : PhysAddr.new v = .ok ⟨v, h⟩ := dif_pos h

lemma PhysAddr.val_of_new {v : ℕ} {a : PhysAddr} (h : PhysAddr.new v = .ok a) : a.val = v := by
  unfold PhysAddr.new at h
  split at h
  · cases h
    rfl
  · cases h

lemma FrameRange.new_ok {a : PhysAddr} (h : a.val % 4096 = 0) (n : ℕ) :
    FrameRange.new a n = .ok ⟨a, n, h⟩ :=
  dif_pos h

end OsRust.Frames
