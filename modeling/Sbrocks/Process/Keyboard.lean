import Sbrocks.Process.PageFault

/-!
# The keyboard

A key completes the line of the task that waits for it, or adds to it.  A
completed line is copied under the waiting task's root, while whichever task was
interrupted is still current.
-/

namespace Sbrocks.Process

/-- `kbdus`; the entries after the last one are zero. -/
def kbdus : List Byte :=
  [0x00, 0x1b, 0x31, 0x32, 0x33, 0x34, 0x35, 0x36, 0x37, 0x38, 0x39, 0x30, 0x2d, 0x3d, 0x08,
   0x09, 0x71, 0x77, 0x65, 0x72, 0x74, 0x79, 0x75, 0x69, 0x6f, 0x70, 0x5b, 0x5d, 0x0a, 0x00,
   0x61, 0x73, 0x64, 0x66, 0x67, 0x68, 0x6a, 0x6b, 0x6c, 0x3b, 0x27, 0x60, 0x00, 0x5c, 0x7a,
   0x78, 0x63, 0x76, 0x62, 0x6e, 0x6d, 0x2c, 0x2e, 0x2f, 0x00, 0x2a, 0x00, 0x20, 0x00, 0x00,
   0x00, 0x00, 0x00, 0x00, 0x00, 0x00, 0x00, 0x00, 0x00, 0x00, 0x00, 0x00, 0x00, 0x00, 0x2d,
   0x00, 0x00, 0x00, 0x2b]

/-- `shiftcodes`; the entries after the last one are zero. -/
def shiftcodes : List Byte :=
  [0x00, 0x1b, 0x21, 0x40, 0x23, 0x24, 0x25, 0x5e, 0x26, 0x2a, 0x28, 0x29, 0x5f, 0x2b, 0x08,
   0x09, 0x51, 0x57, 0x45, 0x52, 0x54, 0x59, 0x55, 0x49, 0x4f, 0x50, 0x7b, 0x7d, 0x0a, 0x00,
   0x41, 0x53, 0x44, 0x46, 0x47, 0x48, 0x4a, 0x4b, 0x4c, 0x3a, 0x22, 0x7e, 0x00, 0x7c, 0x5a,
   0x58, 0x43, 0x56, 0x42, 0x4e, 0x4d, 0x3c, 0x3e, 0x3f, 0x00, 0x2a, 0x00, 0x20, 0x00, 0x00,
   0x00, 0x00, 0x00, 0x00, 0x00, 0x00, 0x00, 0x00, 0x00, 0x00, 0x00, 0x00, 0x00, 0x00, 0x2d,
   0x00, 0x00, 0x00, 0x2b]

namespace Kernel

variable (fault : Fault)

/-- `wake_waiting_task`. -/
def wakeWaitingTask (k : Kernel) : Flow Kernel Kernel := do
  let waiting ← Flow.ofOption k.kb.waitingTask
  return k.modTask waiting fun s => { s with state := .runnable }

/-- Deliver the first `n` characters of the line to the waiting task. -/
def deliverLine (k : Kernel) (n : Nat) : Flow Kernel Kernel := do
  let k := { k with kb := { k.kb with flag := false } }
  let kCr3 := k.m.cr3
  let waiting ← Flow.ofOption k.kb.waitingTask
  let k := k.writeCr3 (k.m.virtToPhy (k.task waiting).pml4e)
  let k ← k.storeBytes fault k.kb.str ((List.range n).map k.kb.a)
  let k := k.writeCr3 kCr3
  let k := { k with kb := { k.kb with i := 0, a := Function.update k.kb.a 0 0 } }
  k.wakeWaitingTask

/-- Add a character to the line. -/
def putInLine (k : Kernel) (c : Byte) : Kernel :=
  { k with kb := { k.kb with a := Function.update k.kb.a k.kb.i c, i := k.kb.i + 1 } }

/-- The part of `handlekey` in scanf mode. -/
def editLine (k : Kernel) (currentChar : Byte) : Flow Kernel Kernel :=
  if currentChar = 0x0a then
    let k := k.putInLine 0x0a
    k.deliverLine fault k.kb.i
  else if currentChar = 0x08 ∧ k.kb.i > 0 then
    .next { k with kb := { k.kb with a := Function.update k.kb.a k.kb.i 0, i := k.kb.i - 1 } }
  else
    let k := k.putInLine currentChar
    if k.kb.count.toNat ≤ k.kb.i then k.deliverLine fault 1 else .next k

/-- `handlekey`. -/
def handlekey (k : Kernel) (scancode : Byte) : Flow Kernel Kernel := do
  let codes := if k.kb.curentControl = .shiftKey then shiftcodes else kbdus
  let currentChar := codes.getD scancode.toNat 0
  let k ← (if k.kb.flag then k.editLine fault currentChar else .next k)
  return { k with kb := { k.kb with curentControl := .normalKey } }

/-- `kb_handler`, with the scan code it reads. -/
def kbHandler (k : Kernel) (scancode : Byte) : Flow Kernel Kernel :=
  if scancode &&& 0x80 ≠ 0 then .next k
  else if scancode = 42 then .next { k with kb := { k.kb with curentControl := .shiftKey } }
  else if scancode = 56 then .next { k with kb := { k.kb with curentControl := .altKey } }
  else if scancode = 29 then .next { k with kb := { k.kb with curentControl := .controlKey } }
  else k.handlekey fault scancode

end Kernel

end Sbrocks.Process
