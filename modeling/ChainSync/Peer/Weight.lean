import ChainSync.Clock
import ChainSync.Peer.Rate

/-!
# Peer weights

A peer's weight is how fast it delivered lately plus how long ago it was
asked for anything, so that load spreads over fast peers. Every error and
every timeout divides it.
-/

namespace ChainSync

structure Weight where
  /-- Transfer rates in bytes per second, oldest first. -/
  speeds : List Rate
  /-- When the last requests went out, oldest first. -/
  asked : List Instant
  errors : Nat
  timeouts : Nat
deriving DecidableEq, Inhabited

namespace Weight

def recordCount : Nat := 3

/-- What a fresh peer is trusted with: 100 MiB per second. -/
def initialSpeed : Rate := Rate.ofNat (100 * 1024 * 1024)

def fresh (now : Instant) : Weight :=
  ⟨List.replicate recordCount initialSpeed, List.replicate recordCount now, 0, 0⟩

/-- Appends a record, forgetting the oldest beyond `recordCount`. -/
def keep {α : Type} (x : α) (records : List α) : List α :=
  (if recordCount ≤ records.length then records.drop 1 else records) ++ [x]

def addSpeed (speed : Rate) (w : Weight) : Weight :=
  { w with speeds := keep speed w.speeds }

def addRequest (now : Instant) (w : Weight) : Weight :=
  { w with asked := keep now w.asked }

def addError (w : Weight) : Weight :=
  { w with errors := min (w.errors + 1) maxWord }

def addTimeout (w : Weight) : Weight :=
  { w with timeouts := min (w.timeouts + 1) maxWord }

def averageSpeed (w : Weight) : Rate :=
  if w.speeds.isEmpty then ⟨0⟩ else (Rate.sum w.speeds).divNat w.speeds.length

/-- Whole milliseconds since each recorded request, on average. -/
def averageIdle (now : Instant) (w : Weight) : Rate :=
  if w.asked.isEmpty then ⟨0⟩
  else (Rate.sum (w.asked.map fun t => Rate.ofNat ((now - t) / 1000))).divNat w.asked.length

def value (now : Instant) (w : Weight) : Rate :=
  ((w.averageSpeed.add (w.averageIdle now)).divNat (w.errors + 1)).divNat (w.timeouts + 1)

end Weight

end ChainSync
