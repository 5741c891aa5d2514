import MicroEngine.ControlStore
/-!
# The built-in diagnostic

A short loop that exercises call and return, the deferred jump, the increment of a holding register,
the scratchpad and an extended adder cycle:

* 0000: nothing
* 0001: jump to 0002
* 0002: call 0100
* 0003: deferred jump to 0000
* 0004: R0 becomes R0 + 1
* 0100: Z becomes -1, Q becomes SP[0]
* 0101: SP[0] becomes Q + Z, in an extended cycle
* 0102: return

Each pass takes twelve cycles and adds one to R0.
-/

namespace MicroEngine.Diagnostic

def program : List (Address × Microword) :=
  [(0o0000, ⟨0, 0, 0⟩),
    (0o0001, ⟨0o2000020000, 0, 0⟩),
    (0o0002, ⟨0o2021000000, 0, 0⟩),
    (0o0003, ⟨0o2000000000, 0, 0o4⟩),
    (0o0004, ⟨0, 0o424000, 0⟩),
    (0o0100, ⟨0o7777, 0o7777240000, 0o60000⟩),
    (0o0101, ⟨0, 0o2001, 0o1110⟩),
    (0o0102, ⟨0o2040000000, 0, 0⟩)]

/-- The control store that holds the diagnostic and nothing else. -/
def store : ControlStore := ControlStore.empty.writeAll program

end MicroEngine.Diagnostic
