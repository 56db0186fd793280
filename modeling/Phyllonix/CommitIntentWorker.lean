import Phyllonix.OrderServices

/-!
# Commit-intent worker

The handler that takes the items of a paid order from stock: it claims the intent
in a first transaction and decrements the products in a second one. When either
raises, a third one schedules a retry or gives the intent up.
-/

namespace Phyllonix
open Relational

def DEFAULT_MAX_ATTEMPTS : ℕ := 5

def claimCommitIntent (ciId : ℕ) : Py Bool := do
  let res ← selectForUpdateSkipLocked .commitIntent fun c : CommitIntent =>
    c.id = ciId && c.status = CommitIntentStatus.pending.value
  match ← oneOrNone res with
  | none => pure false
  | some ci =>
    if CommitIntent.status ci = CommitIntentStatus.done.value then pure false
    else
      let _ ← update .commitIntent (fun c : CommitIntent => c.id = ciId)
        fun c : CommitIntent =>
          { c with status := CommitIntentStatus.processing.value, attempts := c.attempts + 1 }
      pure true

/-- The texts of the shortages; the products before and after a short one are decremented. -/
def decrementStock : List CommitItem → Py (List String)
  | [] => pure []
  | it :: rest => do
    let pid := it.productId
    let qty := it.quantity
    let res ← selectForUpdate .product fun p : Product => p.id = pid
    match ← oneOrNone res with
    | none => raiseApp (.runtimeError s!"product not found {pid}")
    | some prod =>
      let stock := Product.stockQty prod
      if stock < qty then
        let errors ← decrementStock rest
        pure (s!"insufficient stock for product {pid}: stock={stock} need={qty}" :: errors)
      else
        let newStock := stock - qty
        let _ ← update .product (fun p : Product => p.id = pid)
          fun p : Product => { p with stockQty := newStock }
        decrementStock rest

def commitStock (ciId : ℕ) : Py Unit := do
  let res ← selectForUpdate .commitIntent fun c : CommitIntent => c.id = ciId
  match ← oneOrNone res with
  | none => raiseApp (.runtimeError "commit intent missing payload")
  | some row =>
    let items := ((CommitIntent.payload row).map CommitPayload.items).getD []
    let errors ← decrementStock items
    if errors ≠ [] then raiseApp (.runtimeError s!"errors:{errors}")
    else
      let _ ← update .commitIntent (fun c : CommitIntent => c.id = ciId)
        fun c : CommitIntent => { c with status := CommitIntentStatus.done.value }

def scheduleRetry (maxAttempts ciId : ℕ) : Py Unit := do
  let res ← select .commitIntent fun c : CommitIntent => c.id = ciId
  let row ← oneOrNone res
  let attempts := (row.map CommitIntent.attempts).getD 0
  if attempts + 1 ≥ maxAttempts then
    let _ ← update .commitIntent (fun c : CommitIntent => c.id = ciId)
      fun c : CommitIntent => { c with status := CommitIntentStatus.failed.value }
    commit
  else
    let nextTry := (← now) + seconds (min (60 * 2 ^ attempts) 3600)
    let _ ← update .commitIntent (fun c : CommitIntent => c.id = ciId)
      fun c : CommitIntent =>
        { c with
          status := CommitIntentStatus.pending.value
          nextRetryAt := some nextTry
          attempts := c.attempts + 1 }
    commit

def orderConfirmCommitintentHandler (maxAttempts : ℕ) (ciId : Option ℕ) : Py Unit := do
  match ciId with
  | none | some 0 => pure ()
  | some ciId =>
    let r ← Prog.attempt do
      if ← Prog.transaction (claimCommitIntent ciId) then
        Prog.transaction (commitStock ciId)
    match r with
    | .ok () => pure ()
    | .error _ => scheduleRetry maxAttempts ciId

end Phyllonix
