import ChainSync.Wire.Error

/-!
# Ledger and synchronizer errors

Why a block is rejected, and what can go wrong above the ledger.
-/

namespace ChainSync

inductive LedgerError
  | decode (error : NetError)
  /-- The block does not extend the stored chain. -/
  | outOfOrder (current got : Nat)
  | unknownHeader (height : Nat)
  | hashMismatch (height : Nat) (expected got : Hash)
  | merkleMismatch (height : Nat)
deriving DecidableEq

def LedgerError.message : LedgerError → String
  | .decode error => s!"Malformed block: {error.message}"
  | .outOfOrder current got => s!"Block {got} does not follow stored height {current}"
  | .unknownHeader height => s!"No header at height {height}"
  | .hashMismatch height expected got =>
    s!"Hash mismatch at height {height}: expected {expected.toText}, got {got.toText}"
  | .merkleMismatch height => s!"Merkle root mismatch at height {height}"

def LedgerError.kind : LedgerError → String
  | .decode _ => "Decode"
  | .outOfOrder .. => "OutOfOrder"
  | .unknownHeader _ => "UnknownHeader"
  | .hashMismatch .. => "HashMismatch"
  | .merkleMismatch _ => "MerkleMismatch"

inductive SyncError
  | network (error : NetError)
  | ledger (error : LedgerError)
  | internal (text : String)
deriving DecidableEq

def SyncError.kind : SyncError → String
  | .network _ => "Network"
  | .ledger _ => "Ledger"
  | .internal _ => "Internal"

def SyncError.message : SyncError → String
  | .network error => s!"Network error: {error.message}"
  | .ledger error => s!"Ledger error: {error.message}"
  | .internal text => s!"Internal error: {text}"

end ChainSync
