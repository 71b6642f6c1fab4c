import SparkTrail.Pool

/-!
# Histories of a pool

A history is a list of events, from the outside of the pool: launches, updates, clearings, and
changes of a living particle through its slot. A change is any function at all, so it may end a life
without giving the slot back, or begin one anew. Events may hand slots out.
-/
namespace SparkTrail.Pool

/-- What can be done with a pool. -/
inductive Event (α : Type) where
  | spawn (launch : Launch α) (art : Option (Art α)) (path : Option Path)
  | update (dt : α)
  | clear
  | modify (slot : Nat) (change : PathParticle α → PathParticle α)

variable {α : Type} [Scalar α]

/-- The pool after an event. A change of a slot where nothing lives is no change. -/
def step (pool : Pool α) : Event α → Pool α
  | .spawn launch art path => (pool.spawn launch art path).2
  | .update dt => (pool.update dt).2
  | .clear => pool.clear
  | .modify slot change => (pool.modify? slot change).getD pool

def handed? (pool : Pool α) : Event α → Option Nat
  | .spawn launch art path => (pool.spawn launch art path).1
  | _ => none

def run (pool : Pool α) (events : List (Event α)) : Pool α :=
  events.foldl step pool

def handOuts (pool : Pool α) : List (Event α) → List Nat
  | [] => []
  | e :: es => (pool.handed? e).toList ++ (pool.step e).handOuts es

/-- The states of a pool with room for so many particles. -/
def Reachable (capacity : Nat) (pool : Pool α) : Prop :=
  ∃ events, (empty capacity).run events = pool

variable {pool : Pool α} {e : Event α} {es es' : List (Event α)} {i : Nat}

theorem run_cons : pool.run (e :: es) = (pool.step e).run es := rfl

theorem run_append : pool.run (es ++ es') = (pool.run es).run es' :=
  List.foldl_append

theorem run_concat : pool.run (es ++ [e]) = (pool.run es).step e :=
  run_append

theorem mem_handOuts_cons :
    i ∈ pool.handOuts (e :: es) ↔ pool.handed? e = some i ∨ i ∈ (pool.step e).handOuts es := by
  rw [handOuts, List.mem_append, Option.mem_toList]

/-- What holds at first and is kept by every event holds in every state. -/
theorem run_induction {P : Pool α → Prop} (h : P pool)
    (hstep : ∀ pool e, P pool → P (pool.step e)) (es : List (Event α)) : P (pool.run es) := by
  induction es generalizing pool with
  | nil => exact h
  | cons e es ih => exact ih (hstep pool e h)

/-- Where a slot was in use before and is not in use after, there is an event that ended its use. -/
theorem exists_end (h : pool.get? i ≠ none) (h' : (pool.run es).get? i = none) :
    ∃ front e back, es = front ++ e :: back ∧ (pool.run front).get? i ≠ none ∧
      ((pool.run front).step e).get? i = none := by
  induction es generalizing pool with
  | nil => exact absurd h' h
  | cons e es ih =>
    by_cases he : (pool.step e).get? i = none
    · exact ⟨[], e, es, rfl, h, he⟩
    · obtain ⟨front, e', back, rfl, hfront, hend⟩ := ih he h'
      exact ⟨e :: front, e', back, rfl, hfront, hend⟩

end SparkTrail.Pool
