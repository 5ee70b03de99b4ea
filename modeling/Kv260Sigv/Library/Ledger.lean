import Kv260Sigv.Library.Clocked

/-!
# Ledgers of a clocked machine

What passes a port in the first `n` cycles is a list: `ledger f` collects what `f` reads
off every cycle.  A machine that holds some items back conserves them: if in every cycle
what it holds and what comes in is what goes out and what it holds afterwards, the same is
true of whole runs.
-/

set_option autoImplicit false

namespace Clocked

variable {ι σ α β : Type}

/-- What `f` reads off the first `n` cycles, in order. -/
def ledger (step : ι → σ → σ) (inputs : ℕ → ι) (s : σ) (f : ι → σ → List α) : ℕ → List α
  | 0 => []
  | n + 1 => ledger step inputs s f n ++ f (inputs n) (run step inputs s n)

variable {step : ι → σ → σ} {inputs : ℕ → ι} {s : σ}

end Clocked
