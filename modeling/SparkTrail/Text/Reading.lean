/-! What a reader leaves behind. -/
namespace SparkTrail.Text

/-- What a reader found and what is left for the next one, which is shorter than `limit`. With the
length of the input as limit the reader has used something up, so a reader that goes on with the
rest comes to an end; with one more, it may have used up nothing. -/
structure Reading (σ α : Type) (limit : Nat) where
  value : α
  rest : List σ
  within : rest.length < limit

variable {σ α β : Type} {m n : Nat}

theorem Reading.lt_cons (rest : List σ) : rest.length < rest.length + 1 :=
  Nat.lt_succ_self rest.length

theorem Reading.le_cons (rest : List σ) : rest.length ≤ rest.length + 1 :=
  Nat.le_succ rest.length

theorem Reading.dropWhile_lt (kind : σ → Bool) (rest : List σ) :
    (rest.dropWhile kind).length < rest.length + 1 :=
  Nat.lt_succ_of_le (List.dropWhile_sublist kind).length_le

/-- Another value with the same rest. -/
def Reading.map (f : α → β) (r : Reading σ α n) : Reading σ β n :=
  ⟨f r.value, r.rest, r.within⟩

/-- The same reading of a longer input. -/
def Reading.widen (r : Reading σ α m) (h : m ≤ n) : Reading σ α n :=
  ⟨r.value, r.rest, Nat.lt_of_lt_of_le r.within h⟩

end SparkTrail.Text
