/-!
The chain of a thread: the ids of the instrumented calls that are running on it, innermost first.
-/
namespace Instrumentation.Invocation

abbrev Chain := List Nat

namespace Chain

/-- The innermost call. -/
def current (c : Chain) : Option Nat := c.head?

/-- The chain without a call and all calls inside it. A call that is not on the chain changes
nothing. -/
def leave (c : Chain) (id : Nat) : Chain :=
  if id ∈ c then (c.dropWhile (· != id)).drop 1 else c

@[simp] theorem leave_cons_self (c : Chain) (id : Nat) : leave (id :: c) id = c := by
  simp [leave]

end Chain
end Instrumentation.Invocation
