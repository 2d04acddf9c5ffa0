import Bobbit.Lib.JsMap

/-!
# Session write permits

Model of `src/server/extension-host/session-write-permit.ts`: one map of permits in insertion order.
Times are rationals, and the nonce that a mint draws is an argument.
-/

namespace Bobbit.Server.WritePermit

open Bobbit.Lib

structure WritePermitBinding where
  sessionId : String
  packId : String
  tool : String
  contentHash : String
deriving DecidableEq

structure StoredPermit where
  binding : WritePermitBinding
  expiresAt : Rat
  consumed : Bool

/-- `DEFAULT_WRITE_PERMIT_TTL_MS`. -/
def defaultWritePermitTtlMs : Rat := 5000

/-- `MAX_LIVE_PERMITS`. -/
def maxLivePermits : Nat := 1000

abbrev Permits := JsMap String StoredPermit

def pruneExpired (permits : Permits) (now : Rat) : Permits :=
  permits.filter fun entry => ! (entry.2.consumed || decide (entry.2.expiresAt < now))

/-- Drop the oldest permit when the map is full. -/
def dropOldest (permits : Permits) : Permits :=
  if maxLivePermits ≤ permits.length then
    match permits.head? with
    | some oldest => JsMap.erase permits oldest.1
    | none => permits
  else permits

/-- The lifetime of a permit: the given one if it is positive. -/
def lifetime (ttlMs : Option Rat) : Rat :=
  match ttlMs with
  | some ttl => if 0 < ttl then ttl else defaultWritePermitTtlMs
  | none => defaultWritePermitTtlMs

def mintWritePermit (permits : Permits) (binding : WritePermitBinding) (ttlMs : Option Rat)
    (now : Rat) (nonce : String) : Permits :=
  JsMap.set (dropOldest (pruneExpired permits now)) nonce ⟨binding, now + lifetime ttlMs, false⟩

/-- `consumeWritePermit`: whether the permit was good, and the permits that are left. -/
def consumeWritePermit (permits : Permits) (nonce : String) (binding : WritePermitBinding)
    (now : Rat) : Bool × Permits :=
  if nonce.isEmpty then (false, permits)
  else match JsMap.get? permits nonce with
    | none => (false, permits)
    | some p =>
      if p.consumed then (false, JsMap.erase permits nonce)
      else if p.expiresAt < now then (false, JsMap.erase permits nonce)
      else if p.binding ≠ binding then (false, permits)
      else (true, JsMap.erase permits nonce)

/-! ## Runs -/

inductive Event
  | mint (binding : WritePermitBinding) (ttlMs : Option Rat) (now : Rat) (nonce : String)
  | consume (nonce : String) (binding : WritePermitBinding) (now : Rat)

def Event.time : Event → Rat
  | .mint _ _ now _ => now
  | .consume _ _ now => now

def Event.minted : Event → Option String
  | .mint _ _ _ nonce => some nonce
  | .consume _ _ _ => none

structure Use where
  nonce : String
  binding : WritePermitBinding
  now : Rat

/-- The permits and the uses so far. -/
structure Ledger where
  permits : Permits
  uses : List Use

def empty : Ledger := ⟨[], []⟩

def step (s : Ledger) : Event → Ledger
  | .mint binding ttlMs now nonce =>
    { s with permits := mintWritePermit s.permits binding ttlMs now nonce }
  | .consume nonce binding now =>
    let (good, permits) := consumeWritePermit s.permits nonce binding now
    { permits := permits
      uses := if good then s.uses ++ [⟨nonce, binding, now⟩] else s.uses }

end Bobbit.Server.WritePermit
