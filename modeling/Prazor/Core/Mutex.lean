import Mathlib.Logic.Function.Basic

/-!
# Programs around a mutex

Each thread of a concurrent program is at a program point, and at some of the
points it is between taking and releasing a mutex.  The mutex gives mutual
exclusion: it names the one thread that holds it.  The rules say how the two
stay together when one thread moves.
-/

namespace Prazor.Mutex

variable {Thread Point : Type*}

/-- The threads at a point inside are the thread that holds the mutex. -/
def Held (inside : Point → Prop) (pc : Thread → Point) (owner : Option Thread) : Prop :=
  ∀ thread, inside (pc thread) ↔ owner = some thread

variable {inside : Point → Prop} {pc : Thread → Point} {owner : Option Thread}
variable {thread : Thread} {point : Point}

/-- Two threads inside are one. -/
theorem Held.unique (h : Held inside pc owner) {other : Thread}
    (hthread : inside (pc thread)) (hother : inside (pc other)) : thread = other := by
  rw [h thread] at hthread
  rw [h other, hthread] at hother
  exact Option.some.inj hother

/-- A free mutex has no thread inside. -/
theorem Held.not_inside (h : Held inside pc none) (other : Thread) :
    ¬inside (pc other) := by
  rw [h other]
  exact nofun

variable [DecidableEq Thread]

/-- A thread that neither comes in nor goes out leaves the mutex as it is. -/
theorem Held.move (h : Held inside pc owner) (hmove : inside point ↔ inside (pc thread)) :
    Held inside (Function.update pc thread point) owner := by
  intro other
  by_cases hother : other = thread
  · rw [hother, Function.update_self, hmove]
    exact h thread
  · rw [Function.update_of_ne hother]
    exact h other

/-- A thread that takes the free mutex comes in. -/
theorem Held.acquire (h : Held inside pc none) (hpoint : inside point) :
    Held inside (Function.update pc thread point) (some thread) := by
  intro other
  by_cases hother : other = thread
  · rw [hother, Function.update_self]
    exact ⟨fun _ => rfl, fun _ => hpoint⟩
  · rw [Function.update_of_ne hother, Option.some.injEq]
    exact ⟨fun hinside => absurd hinside (h.not_inside other),
      fun heq => absurd heq.symm hother⟩

/-- A thread that releases the mutex it holds goes out. -/
theorem Held.release (h : Held inside pc owner) (hthread : inside (pc thread))
    (hpoint : ¬inside point) :
    Held inside (Function.update pc thread point) none := by
  intro other
  by_cases hother : other = thread
  · rw [hother, Function.update_self]
    exact ⟨fun hinside => absurd hinside hpoint, nofun⟩
  · rw [Function.update_of_ne hother]
    exact ⟨fun hinside => absurd (h.unique hinside hthread) hother, nofun⟩

end Prazor.Mutex
