import Mathlib.Data.List.Basic

/-!
# Semaphores

`Semaphore` of `threads/synch.cc` as a value and a queue of waiting threads. The operations are
the sections that run with interrupts off: one pass through the loop of `P`, which either takes
a unit or leaves the caller asleep in the queue, and the whole of `V`. A thread that `V` takes
out of the queue runs `P`'s loop again, so a unit can be gone by the time it looks.
-/

namespace Nachos

/-- A `Semaphore` with waiting threads named by `T`. -/
structure Semaphore (T : Type*) where
  value : Int
  queue : List T
  deriving DecidableEq, Repr

namespace Semaphore

variable {T : Type*}

/-- `Semaphore::Semaphore`. -/
def new (initialValue : Int) : Semaphore T := ⟨initialValue, []⟩

/-- One pass through the loop of `Semaphore::P`: `true` when the caller got a unit, `false` when
it went to sleep in the queue. -/
def P (sem : Semaphore T) (currentThread : T) : Bool × Semaphore T :=
  if sem.value = 0 then (false, { sem with queue := sem.queue ++ [currentThread] })
  else (true, { sem with value := sem.value - 1 })

/-- `Semaphore::V`, with the thread it hands to the scheduler. -/
def V (sem : Semaphore T) : Option T × Semaphore T :=
  (sem.queue.head?, ⟨sem.value + 1, sem.queue.tail⟩)

/-- `Semaphore::~Semaphore`: `List::~List` takes every element off the queue and wakes none. -/
def destroy (sem : Semaphore T) : Semaphore T := { sem with queue := [] }

end Semaphore
end Nachos
