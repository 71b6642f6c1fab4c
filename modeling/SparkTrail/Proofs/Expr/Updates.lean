import SparkTrail.Expr.Basic

/-!
# How an expression changes its variable

Evaluation hands the variable from operand to operand, and what it adds on the way is known from the
tree alone: `deltas` lists the changes in the order in which they are made, and no computed value
has a say in it. So an operand whose value nobody reads, a surplus argument or an item of a sequence
before the last, has an effect through its changes only. What stands around an operand is a list of
frames, one for each expression that the operand is inside of.
-/
namespace SparkTrail.Expr

mutual

/-- What an expression adds to the variable, one entry for each step in it, from left to right. -/
def deltas : Expr → List Float
  | .number _ => []
  | .var => []
  | .constant _ => []
  | .negate e => e.deltas
  | .binary _ lhs rhs => lhs.deltas ++ rhs.deltas
  | .update step _ => [step.delta]
  | .unaryCall _ arg extra => arg.deltas ++ allDeltas extra
  | .binaryCall _ lhs rhs extra => lhs.deltas ++ rhs.deltas ++ allDeltas extra
  | .sequence items => allDeltas items

def allDeltas : List Expr → List Float
  | [] => []
  | e :: es => e.deltas ++ allDeltas es

end

/-- An expression with a gap in place of one of its immediate operands. -/
inductive Frame where
  | negate
  | binaryLeft (op : Operator) (rhs : Expr)
  | binaryRight (op : Operator) (lhs : Expr)
  | unaryArgument (f : UnaryFn) (extra : List Expr)
  | unarySurplus (f : UnaryFn) (arg : Expr) (before after : List Expr)
  | binaryFirst (f : BinaryFn) (rhs : Expr) (extra : List Expr)
  | binarySecond (f : BinaryFn) (lhs : Expr) (extra : List Expr)
  | binarySurplus (f : BinaryFn) (lhs rhs : Expr) (before after : List Expr)
  | item (before after : List Expr)

namespace Frame

def fill : Frame → Expr → Expr
  | negate, e => .negate e
  | binaryLeft op rhs, e => .binary op e rhs
  | binaryRight op lhs, e => .binary op lhs e
  | unaryArgument f extra, e => .unaryCall f e extra
  | unarySurplus f arg before after, e => .unaryCall f arg (before ++ e :: after)
  | binaryFirst f rhs extra, e => .binaryCall f e rhs extra
  | binarySecond f lhs extra, e => .binaryCall f lhs e extra
  | binarySurplus f lhs rhs before after, e => .binaryCall f lhs rhs (before ++ e :: after)
  | item before after, e => .sequence (before ++ e :: after)

/-- Whether the value of the operand in the gap is dropped: it is a surplus argument, or an item of
a sequence that is not the last. -/
def Discards : Frame → Prop
  | unarySurplus _ _ _ _ => True
  | binarySurplus _ _ _ _ _ => True
  | item _ after => after ≠ []
  | _ => False

end Frame

/-- An expression inside of frames, the first of which is the outermost. -/
def inside (frames : List Frame) (e : Expr) : Expr :=
  frames.foldr Frame.fill e

variable {e e' : Expr} {before after : List Expr} {last last' x : Float} {frame : Frame}

-- One case for each constructor: an operand adds its deltas to what the operands before it left.
mutual

/-- What evaluation does to the variable is to add the changes of all steps, from left to right. -/
theorem run_snd (e : Expr) (x : Float) : (e.run x).2 = e.deltas.foldl (· + ·) x := by
  match e with
  | .number _ => rfl
  | .var => rfl
  | .constant _ => rfl
  | .negate e => exact run_snd e x
  | .binary _ lhs rhs =>
    rw [deltas, List.foldl_append, ← run_snd lhs x, ← run_snd rhs]
    rfl
  | .update _ _ => rfl
  | .unaryCall _ arg extra =>
    rw [deltas, List.foldl_append, ← run_snd arg x, ← runAll_snd nan extra]
    rfl
  | .binaryCall _ lhs rhs extra =>
    rw [deltas, List.foldl_append, List.foldl_append, ← run_snd lhs x, ← run_snd rhs,
      ← runAll_snd nan extra]
    rfl
  | .sequence items => exact runAll_snd nan items x

theorem runAll_snd (last : Float) (es : List Expr) (x : Float) :
    (runAll last es x).2 = (allDeltas es).foldl (· + ·) x := by
  match es with
  | [] => rfl
  | e :: es =>
    rw [allDeltas, List.foldl_append, ← run_snd e x, ← runAll_snd (e.run x).1 es]
    rfl

end

theorem allDeltas_append (es es' : List Expr) :
    allDeltas (es ++ es') = allDeltas es ++ allDeltas es' := by
  induction es with
  | nil => rfl
  | cons e es ih => rw [List.cons_append, allDeltas, allDeltas, ih, List.append_assoc]

theorem runAll_append (last : Float) (es es' : List Expr) (x : Float) :
    runAll last (es ++ es') x = runAll (runAll last es x).1 es' (runAll last es x).2 := by
  induction es generalizing last x with
  | nil => rfl
  | cons e es ih => exact ih (e.run x).1 (e.run x).2

/-- The value that a list starts from is the list's only where the list is empty. -/
theorem runAll_of_ne_nil (h : after ≠ []) : runAll last after x = runAll last' after x := by
  cases after with
  | nil => exact absurd rfl h
  | cons e es => rfl

/-- Expressions with the same deltas leave the same variable behind. -/
theorem run_snd_congr (h : e.deltas = e'.deltas) (x : Float) : (e.run x).2 = (e'.run x).2 := by
  rw [run_snd, run_snd, h]

theorem runAll_snd_congr (h : e.deltas = e'.deltas) (last x : Float) :
    (runAll last (before ++ e :: after) x).2 = (runAll last (before ++ e' :: after) x).2 := by
  rw [runAll_snd, runAll_snd, allDeltas_append, allDeltas_append, allDeltas, allDeltas, h]

theorem runAll_congr (h : e.run = e'.run) (last x : Float) :
    runAll last (before ++ e :: after) x = runAll last (before ++ e' :: after) x := by
  rw [runAll_append, runAll_append, runAll, runAll, h]

namespace Frame

/-- An operand counts for what it gives when it is run, so one that gives the same can take its
place. -/
theorem run_fill (frame : Frame) (h : e.run = e'.run) :
    (frame.fill e).run = (frame.fill e').run := by
  funext x
  cases frame with
  | negate => simp only [fill, run, h]
  | binaryLeft op rhs => simp only [fill, run, h]
  | binaryRight op lhs => simp only [fill, run, h]
  | unaryArgument f extra => simp only [fill, run, h]
  | unarySurplus f arg before after => simp only [fill, run, runAll_congr h]
  | binaryFirst f rhs extra => simp only [fill, run, h]
  | binarySecond f lhs extra => simp only [fill, run, h]
  | binarySurplus f lhs rhs before after => simp only [fill, run, runAll_congr h]
  | item before after => simp only [fill, run, runAll_congr h]

/-- Of an operand whose value is dropped the deltas are all that counts. -/
theorem run_fill_of_discards (hf : frame.Discards) (h : e.deltas = e'.deltas) :
    (frame.fill e).run = (frame.fill e').run := by
  funext x
  cases frame with
  | unarySurplus f arg before after => simp only [fill, run, runAll_snd_congr h]
  | binarySurplus f lhs rhs before after => simp only [fill, run, runAll_snd_congr h]
  | item before after =>
    -- the item hands on the same variable, and the items behind it do not ask for its value
    have hitem : runAll (e.run (runAll nan before x).2).1 after (e.run (runAll nan before x).2).2
        = runAll (e'.run (runAll nan before x).2).1 after (e'.run (runAll nan before x).2).2 := by
      rw [run_snd_congr h]
      exact runAll_of_ne_nil hf
    rw [fill, fill, run, run, runAll_append, runAll_append]
    exact hitem
  | negate => exact hf.elim
  | binaryLeft op rhs => exact hf.elim
  | binaryRight op lhs => exact hf.elim
  | unaryArgument f extra => exact hf.elim
  | binaryFirst f rhs extra => exact hf.elim
  | binarySecond f lhs extra => exact hf.elim

end Frame

theorem run_inside (frames : List Frame) (h : e.run = e'.run) :
    (inside frames e).run = (inside frames e').run := by
  induction frames with
  | nil => exact h
  | cons frame frames ih => exact frame.run_fill ih

/-- Evaluation adds the deltas of all steps to the variable, one up or one down for each, from left
to right, whatever the values on the way; and an operand whose value is dropped, however deep it is
inside an expression, can be replaced by any other one with the same deltas. -/
theorem evaluation_threads_deltas :
    (∀ (e : Expr) (x : Float), (e.run x).2 = e.deltas.foldl (· + ·) x) ∧
    (∀ place, (update .increment place).deltas = [1] ∧
      (update .decrement place).deltas = [-1]) ∧
    ∀ (frames : List Frame) (frame : Frame) (e e' : Expr), frame.Discards → e.deltas = e'.deltas →
      ∀ x, (inside frames (frame.fill e)).eval x = (inside frames (frame.fill e')).eval x := by
  refine ⟨run_snd, ?_, ?_⟩
  · intro place
    have hone : (1.0 : Float) = 1 := by decide
    rw [deltas, deltas, Step.delta, Step.delta, hone]
    exact ⟨rfl, rfl⟩
  · intro frames frame e e' hf h x
    have hrun := run_inside frames (Frame.run_fill_of_discards hf h)
    rw [eval, eval, hrun]

/-- The surplus argument of `sin(0, x--) + x` can be negated and stepped before instead of after. -/
theorem evaluation_threads_deltas_surplus :
    (Frame.unarySurplus .sin (.number 0) [] []).Discards ∧
    (update .decrement .after).deltas = (negate (.update .decrement .before)).deltas ∧
    ∀ x, (binary .add (.unaryCall .sin (.number 0) [.update .decrement .after]) .var).eval x =
      (binary .add (.unaryCall .sin (.number 0) [.negate (.update .decrement .before)])
        .var).eval x :=
  ⟨trivial, rfl, evaluation_threads_deltas.2.2 [.binaryLeft .add .var]
    (.unarySurplus .sin (.number 0) [] []) _ _ trivial rfl⟩

end SparkTrail.Expr
