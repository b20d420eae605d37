import InterCore.Board

/-!
# Giving buffers back

Buffers that the application is done with go back to the peer over the shared free queue and the
release doorbell. The doorbell cannot queue rings: while an earlier ring is unacknowledged,
buffers only wait on the local queue, and the transmit interrupt later hands all of them over with
one ring.

## Main definitions

* `Host.giveBack`: give one buffer back, now or later.
* `Host.flush`: move every waiting buffer to the shared free queue.
* `Host.releaseAcknowledged`: the peer consumed a ring.
-/

namespace InterCore.Host

open Board

variable {σ : Type} (observer : Observer σ)

/-- Move the first waiting buffer to the shared free queue, if there is one. -/
def flushOne : BoardM σ Bool := do
  let host := (← get).host
  match ← extract fun a m => Chain.popFront a m host.localQueue with
  | none => return false
  | some node =>
    splice fun a m => Chain.pushBack a m host.freeQueue node
    return true

/-- Move every waiting buffer to the shared free queue. Returns their number. -/
def flush : BoardM σ Nat :=
  drain flushOne

/-- Ring the release doorbell. -/
def ringRelease : BoardM σ Unit := do
  modifyBell .release Bell.ring
  observer { kind := .releaseRung, channel := Channel.release.number, length := 0, code := 0 }

/-- Give one buffer back. It waits on the local queue first; unless an earlier ring is still
unacknowledged, everything that waits is handed over at once. -/
def giveBack (node : NodeIndex) : BoardM σ Unit := do
  let host := (← get).host
  splice fun a m => Chain.pushBack a m host.localQueue node
  observer { kind := .bufferReleased, channel := Channel.release.number, length := 0, code := 0 }
  if (← bell .release).hostFlag then
    modifyHost fun h => { h with releasePending := true }
    modifyBell .release (·.enableTx true)
    observer { kind := .releaseDeferred, channel := Channel.release.number, length := 0, code := 0 }
  else
    let _ ← flush
    ringRelease observer

/-- The peer consumed a ring: hand over what has gathered since. A wake-up without cause finds the
flag still set and waits on. -/
def releaseAcknowledged : BoardM σ Unit := do
  modifyBell .release (·.enableTx false)
  modifyHost fun h => { h with releasePending := false }
  if (← bell .release).hostFlag then
    modifyHost fun h => { h with releasePending := true }
    modifyBell .release (·.enableTx true)
  else if (← flush) ≠ 0 then
    ringRelease observer

end InterCore.Host
