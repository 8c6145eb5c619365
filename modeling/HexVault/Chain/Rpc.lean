import HexVault.Lib.Expiring

/-!
What an RPC node tells of a transaction.
-/

namespace HexVault

namespace Rpc

open Expiring

inductive InstructionError where
  | custom (code : Nat)
  | named (name : String)
  deriving DecidableEq, Repr

inductive TransactionError where
  | instructionError (index : Nat) (detail : InstructionError)
  | named (name : String)
  deriving DecidableEq, Repr

/-- How a transaction on the chain ended: its error, if it had one. -/
abbrev Outcome := Option TransactionError

def InstructionError.stringify : InstructionError → String
  | .custom code => "\x7b\"Custom\":" ++ toString code ++ "\x7d"
  | .named name => "\"" ++ name ++ "\""

/-- The text `JSON.stringify` makes of it. -/
def TransactionError.stringify : TransactionError → String
  | .instructionError index detail =>
      "\x7b\"InstructionError\":[" ++ toString index ++ "," ++ detail.stringify ++ "]\x7d"
  | .named name => "\"" ++ name ++ "\""

inductive Commitment where
  | processed
  | confirmed
  | finalized
  deriving DecidableEq, Repr

structure SignatureStatus where
  err : Option TransactionError
  confirmationStatus : Commitment
  deriving DecidableEq, Repr

/-- What a call to a node comes back with, if it does. -/
inductive Called (α : Type) where
  | value (answer : α)
  | threw
  deriving DecidableEq, Repr

def Called.Fair {α : Type} (fair : α → Prop) : Called α → Prop
  | .value answer => fair answer
  | .threw => True

/-- A status of the confirmed chain is that chain's. One of a block that may yet be dropped says
nothing of it, and neither does a missing one: nodes lag, and forget. -/
def SignatureStatus.Fair (chain : Chain String Outcome) (signature : String) :
    Option SignatureStatus → Prop
  | none => True
  | some seen => seen.confirmationStatus = .processed ∨ status chain signature = some seen.err

end Rpc

end HexVault
