import SparkTrail.Proofs.Expr.Follow

/-!
# Lexing and parsing end

With eight allowed for each token that is left and eight for their end, no routine stalls, wherever
among the tokens it begins and whatever the tokens are; with as much for each character of a text,
no reading of the text stalls. What is read ends behind the place where it begins, but for a name:
that is read from behind it, and if it has a value of its own there is nothing more to move over.
-/
namespace SparkTrail.Expr

variable {text last : List Char} {pieces : List Piece} {ts : List Token}

/-- There are no more tokens than characters, because no lexeme is empty. -/
theorem length_le_of_cuts (h : Cuts pieces last) : pieces.length ≤ (Piece.text pieces).length := by
  induction h with
  | nil => exact Nat.le_refl _
  | cons _ hlexeme _ ih =>
    have hpos := List.length_pos_iff.mpr hlexeme.ne_nil
    simp only [Piece.text, List.length_append, List.length_cons]
    omega

theorem length_tokens (p : Nat) (pieces : List Piece) :
    (Piece.tokens p pieces).length = pieces.length := by
  induction pieces generalizing p with
  | nil => rfl
  | cons piece pieces ih => exact congrArg Nat.succ (ih _)

/-- Every token takes a character at least. -/
theorem length_le_of_tokens (h : tokens text = .ok ts) : ts.length ≤ text.length := by
  obtain ⟨pieces, last, rfl, hcuts, -, rfl⟩ := tokensFrom_eq_ok_iff.mp h
  have hpieces := length_le_of_cuts hcuts
  rw [length_tokens, List.length_append]
  omega

def Parser.whole (ts : List Token) : Parser.Parsed Expr ts.length := do
  let all ← Parser.sequence ts
  match all.rest with
  | [] => return all
  | rest => throw (Parser.unexpected rest)

/-- To parse is to cut into tokens and to read the sequence that takes up all of them. -/
theorem Parser.parse_eq (text : List Char) :
    parse text = (tokens text >>= fun ts => (Parser.whole ts).map (·.value)) := by
  rw [parse]
  cases tokens text with
  | error err => rfl
  | ok ts =>
    show (Parser.sequence ts >>= _) = Except.map _ (Parser.sequence ts >>= _)
    rcases Parser.sequence ts with err | ⟨e, rest, hrest⟩
    · rfl
    · cases rest <;> rfl

namespace Cursor

open SparkTrail.Expr.Parser Walk

/-- The routines that read an expression, from the one that takes the most to the one that takes the
least. -/
inductive Level where
  | sequence | sum | product | signed | stepped | primary

def Level.walk (all : List (Option Token)) (allowance : Nat) : Level → List Call → Walk Expr
  | .sequence => Cursor.sequence all allowance
  | .sum => Cursor.sum all allowance
  | .product => Cursor.product all allowance
  | .signed => Cursor.signed all allowance
  | .stepped => Cursor.stepped all allowance
  | .primary => Cursor.primary all allowance

def Level.read : Level → (ts : List Token) → Parsed Expr ts.length
  | .sequence => Parser.sequence
  | .sum => Parser.sum
  | .product => Parser.product
  | .signed => Parser.signed
  | .stepped => Parser.stepped
  | .primary => Parser.primary

/-- The sequence that takes up all tokens. -/
def whole (all : List (Option Token)) (allowance : Nat) : Walk Expr := do
  let e ← sequence all allowance []
  match ← peek all with
  | some t => fail (unexpected [t])
  | none => return e

/-- The expression that a text stands for. -/
def parse (text : List Char) (allowance : Nat) : Except Stall (Except Error Expr) := do
  match ← Scanner.tokensAt text allowance 0 with
  | .error err => return .error err
  | .ok ts => return (← whole (tape ts) allowance 0).map Prod.fst

variable {α : Type} {n p allowance start : Nat} {rest : List Token} {t : Token}

/-- The first call may be made where there is enough allowed for the tokens that are left. -/
theorem fits_start (hallowed : 8 * (ts.length - start + 1) ≤ allowance) (r : Routine) :
    Fits ts allowance [] r (ts.drop start) := by
  have hrank := r.rank_le
  refine ⟨List.drop_suffix start ts, ?_, by simp⟩
  rw [List.length_drop]
  omega

theorem Level.follows (level : Level) (h : ∀ r, Fits ts allowance [] r rest) :
    Follows ts (level.walk (tape ts) allowance []) rest (level.read rest) := by
  have hagree := agree ts allowance
  cases level with
  | sequence => exact hagree.sequence (h _)
  | sum => exact hagree.sum (h _)
  | product => exact hagree.product (h _)
  | signed => exact hagree.signed (h _)
  | stepped => exact hagree.stepped (h _)
  | primary => exact hagree.primary (h _)

theorem place_self (ts : List Token) : place ts ts = 0 :=
  Nat.sub_self _

theorem place_drop (h : start ≤ ts.length) : place ts (ts.drop start) = start := by
  rw [place, List.length_drop]
  omega

/-- A routine that follows a reader and succeeds ends where the reader leaves off. -/
theorem Follows.reads {walk : Walk α} {x : Parsed α n} {v : α} {stop : Nat}
    (h : Follows ts walk rest x) (hstop : walk (place ts rest) = .ok (.ok (v, stop))) :
    ∃ left, Reads x v left ∧ left <:+ ts ∧ stop = place ts left := by
  rw [h.1] at hstop
  cases x with
  | error err => cases hstop
  | ok r =>
    cases hstop
    exact ⟨r.rest, ⟨r.within, rfl⟩, h.2 r rfl, rfl⟩

/-- The token in front of what is left is the one that was moved over last. -/
theorem getElem?_before_place (h : t :: rest <:+ ts) : ts[place ts rest - 1]? = some t := by
  obtain ⟨before, rfl⟩ := h
  have hplace : place (before ++ t :: rest) rest - 1 = before.length := by
    simp only [place, List.length_append, List.length_cons]
    omega
  rw [hplace, List.getElem?_append_right (Nat.le_refl _), Nat.sub_self]
  rfl

theorem tokensAt_start (h : text.length < allowance) :
    Scanner.tokensAt text allowance 0 = .ok (tokens text) :=
  Scanner.tokensAt_eq (List.nil_append text).symm h

/-- Eight calls for each token, and eight for the end, are enough for a whole expression. -/
theorem follows_whole (hallowed : 8 * (ts.length + 1) ≤ allowance) :
    Follows ts (whole (tape ts) allowance) ts (Parser.whole ts) := by
  have hfits : ∀ r, Fits ts allowance [] r (ts.drop 0) := fits_start hallowed
  refine (Level.follows .sequence hfits).bind fun all hall => ?_
  obtain ⟨e, rest, hrest⟩ := all
  refine .peek hall ?_
  cases rest with
  | nil => exact .pure hall
  | cons t rest => exact .fail

/-- Eight steps for each character of a text, and eight for its end, are enough for reading it. -/
theorem parse_text (hallowed : 8 * (text.length + 1) ≤ allowance) :
    parse text allowance = .ok (Expr.parse text) := by
  rw [parse, tokensAt_start (by omega), Parser.parse_eq]
  cases htokens : tokens text with
  | error err => rfl
  | ok ts =>
    have hfewer := length_le_of_tokens htokens
    have hwhole : whole (tape ts) allowance 0 = _ := place_self ts ▸ (follows_whole (by omega)).1
    show (whole (tape ts) allowance 0 >>= _) = .ok ((Parser.whole ts).map (·.value))
    rw [hwhole]
    cases Parser.whole ts <;> rfl

/-- Called at a place, reading does what the reader does, and where it succeeds it ends behind
`start`, but not behind the mark for the end of the tokens. -/
structure EndsBehind (ts : List Token) (start : Nat) (walk : Walk α) (p : Nat) (x : Parsed α n) :
    Prop where
  outcome : walk p = .ok (x.map fun r => (r.value, place ts r.rest))
  stops : ∀ v stop, walk p = .ok (.ok (v, stop)) → start < stop ∧ stop ≤ ts.length

theorem EndsBehind.eq_error {walk : Walk α} {x : Parsed α n} {err : Error}
    (h : EndsBehind ts start walk p x) (herr : walk p = .ok (.error err)) : x = .error err := by
  have hx := Except.ok.inj (h.outcome.symm.trans herr)
  cases x with
  | error err' => exact congrArg Except.error (Except.error.inj hx)
  | ok r => cases hx

/-- A reader that leaves less than it was given ends behind the place where it was called. -/
theorem Follows.endsBehind {walk : Walk α} {x : Parsed α n} (h : Follows ts walk rest x)
    (hn : n ≤ (ts.drop start).length) : EndsBehind ts start walk (place ts rest) x := by
  refine ⟨h.1, fun v stop hstop => ?_⟩
  obtain ⟨left, hreads, -, rfl⟩ := h.reads hstop
  have hless := hreads.within
  rw [List.length_drop] at hn
  unfold place
  omega

theorem Level.ends (level : Level) (hstart : start ≤ ts.length)
    (hallowed : 8 * (ts.length - start + 1) ≤ allowance) :
    EndsBehind ts start (level.walk (tape ts) allowance []) start (level.read (ts.drop start)) := by
  have hends := (level.follows (fits_start hallowed)).endsBehind (Nat.le_refl _)
  rwa [place_drop hstart] at hends

theorem arguments_end (position : Nat) (hstart : start ≤ ts.length)
    (hallowed : 8 * (ts.length - start + 1) ≤ allowance) :
    EndsBehind ts start (arguments (tape ts) position allowance []) start
      (callArguments position (ts.drop start)) := by
  have hfollows := (agree ts allowance).arguments position (fits_start hallowed _)
  have hends := hfollows.endsBehind (Nat.le_refl _)
  rwa [place_drop hstart] at hends

/-- The token that the arguments of a call end with is a closing parenthesis. -/
theorem arguments_closed {position stop : Nat} {es : List Expr} (hstart : start ≤ ts.length)
    (hallowed : 8 * (ts.length - start + 1) ≤ allowance)
    (hstop : arguments (tape ts) position allowance [] start = .ok (.ok (es, stop))) :
    ∃ q, ts[stop - 1]? = some ⟨.closing, q⟩ := by
  have hfollows := (agree ts allowance).arguments position (fits_start hallowed _)
  have hfurther := (agree ts allowance).furtherArguments (fits_start hallowed _)
  rw [← place_drop hstart] at hstop
  obtain ⟨left, hreads, -, rfl⟩ := hfollows.reads hstop
  obtain ⟨q, _, hargs⟩ := reads_callArguments.mp hreads
  exact ⟨q, getElem?_before_place (hfurther.2 _ hargs)⟩

/-- A name is read as the reader does it, from behind the name. Where that succeeds it ends at the
place where it began, with a value of its own, or behind the parentheses of a call. -/
structure EndsName (ts : List Token) (start : Nat) (walk : Walk Expr) (x : Parsed Expr n) :
    Prop where
  outcome : walk start = .ok (x.map fun r => (r.value, place ts r.rest))
  stops : ∀ e stop, walk start = .ok (.ok (e, stop)) →
    (stop = start ∧ (e = .var ∨ ∃ c, e = .constant c)) ∨
    (start + 1 < stop ∧ stop ≤ ts.length ∧ (∃ q, ts[start]? = some ⟨.opening, q⟩) ∧
      ∃ q, ts[stop - 1]? = some ⟨.closing, q⟩)

/-- A name that is read with success has a value of its own, or arguments in parentheses. -/
theorem reads_identifier {name : String} {e : Expr} {left : List Token}
    (h : Reads (Parser.identifier name rest) e left) :
    (left = rest ∧ (e = .var ∨ ∃ c, e = .constant c)) ∨
      ∃ q inner es q', rest = ⟨.opening, q⟩ :: inner ∧
        Reads (Parser.arguments inner) es (⟨.closing, q'⟩ :: left) := by
  have hname : Reads (Parser.primary (⟨.name name, 0⟩ :: rest)) e left :=
    primary_name name 0 rest ▸ h
  rcases primary_name_cases hname with ⟨hm, rfl⟩ | ⟨f, q, inner, hm, rfl⟩
  · refine .inl ⟨rfl, ?_⟩
    rcases meaning?_eq_value.mp hm with ⟨-, he⟩ | ⟨c, -, he⟩
    · exact .inl he
    · exact .inr ⟨c, he⟩
  · obtain ⟨es, q', hargs, -⟩ := (reads_primary_call hm).mp hname
    exact .inr ⟨q, inner, es, q', rfl, hargs⟩

/-- A name that has a value moves over nothing more, and a call moves over its parentheses. -/
theorem identifier_ends (name : String) (hstart : start ≤ ts.length)
    (hallowed : 8 * (ts.length - start + 1) ≤ allowance) :
    EndsName ts start (identifier (tape ts) name allowance [])
      (Parser.identifier name (ts.drop start)) := by
  have hfollows := (agree ts allowance).identifier name (fits_start hallowed _)
  have hplace := place_drop hstart
  have houtcome := hfollows.1
  rw [hplace] at houtcome
  refine ⟨houtcome, fun e stop hstop => ?_⟩
  rw [← hplace] at hstop
  obtain ⟨left, hreads, -, rfl⟩ := hfollows.reads hstop
  rcases reads_identifier hreads with ⟨rfl, he⟩ | ⟨q, inner, es, q', hdrop, hargs⟩
  · exact .inl ⟨hplace, he⟩
  · -- the opening parenthesis and the closing one are moved over
    have hat : ts[start]? = some ⟨.opening, q⟩ := by
      rw [← List.head?_drop, hdrop, List.head?_cons]
    obtain rfl : inner = ts.drop (start + 1) := by
      rw [← List.tail_drop, hdrop, List.tail_cons]
    have hlength := congrArg List.length hdrop
    have hwithin := hargs.within
    simp only [List.length_drop, List.length_cons] at hlength hwithin
    have hless : 8 * (ts.length - (start + 1) + 1) ≤ allowance := by omega
    have hfurther := (agree ts allowance).furtherArguments (fits_start hless _)
    obtain ⟨_, hlist⟩ := hargs
    refine .inr ⟨?_, Nat.sub_le _ _, ⟨q, hat⟩, q', getElem?_before_place (hfurther.2 _ hlist)⟩
    unfold place
    omega

/-- Lexing and parsing end, whatever the text and whatever the tokens.

From any place between characters the search for a token ends between characters, and behind the
first character of the token that it finds. A routine of the parser ends wherever among the tokens
it begins. On the way it looks only at tokens that are there, and neither it nor a round of its loop
is called again before something is used up. Where it succeeds it has moved over a token, and not
over the mark for the end; what reads arguments has moved over the parenthesis that closes them.
Only what reads a name, which begins behind the name, may have moved over nothing: then the name is
that of the variable or a constant. -/
theorem reading_ends (allowance : Nat) :
    (∀ text : List Char, text.length < allowance →
      Scanner.tokensAt text allowance 0 = .ok (tokens text) ∧
        ∀ p, (Scanner.cut? text p).isSome = true →
          ∃ outcome, Scanner.nextToken text allowance p = .ok outcome ∧
            ∀ found stop, outcome = .ok (found, stop) → (Scanner.cut? text stop).isSome = true ∧
              ∀ t, found = some t → p ≤ t.position ∧ t.position < stop ∧
                (Scanner.cut? text t.position).isSome = true) ∧
      (∀ ts start, start ≤ ts.length → 8 * (ts.length - start + 1) ≤ allowance →
        (∀ level : Level, EndsBehind ts start (level.walk (tape ts) allowance []) start
          (level.read (ts.drop start))) ∧
        (∀ name, EndsName ts start (identifier (tape ts) name allowance [])
          (Parser.identifier name (ts.drop start))) ∧
        ∀ position,
          EndsBehind ts start (arguments (tape ts) position allowance []) start
            (callArguments position (ts.drop start)) ∧
          ∀ es stop, arguments (tape ts) position allowance [] start = .ok (.ok (es, stop)) →
            ∃ q, ts[stop - 1]? = some ⟨.closing, q⟩) ∧
      ∀ text : List Char, 8 * (text.length + 1) ≤ allowance →
        parse text allowance = .ok (Expr.parse text) := by
  refine ⟨fun text hallowed => ⟨tokensAt_start hallowed, fun p hplace => ?_⟩, ?_, ?_⟩
  · exact Scanner.nextToken_ends hplace hallowed
  · intro ts start hstart hallowed
    refine ⟨fun level => level.ends hstart hallowed, fun name => ?_, fun position => ?_⟩
    · exact identifier_ends name hstart hallowed
    · refine ⟨arguments_end position hstart hallowed, fun es stop hstop => ?_⟩
      exact arguments_closed hstart hallowed hstop
  · exact fun text hallowed => parse_text hallowed

/-- The variable is all that its text has. What reads its name begins at the mark for the end, and
succeeds there without moving on. -/
theorem name_moves_over_nothing :
    let ts : List Token := [⟨.name "x", 0⟩]
    tokens "x".toList = .ok ts ∧ Expr.parse "x".toList = .ok .var ∧
      ∃ e stop, identifier (tape ts) "x" 8 [] ts.length = .ok (.ok (e, stop)) ∧
        ¬ ts.length < stop := by
  intro ts
  have hlexed : Scanner.tokensAt "x".toList 16 0 = .ok (.ok ts) := rfl
  have hparsed : parse "x".toList 16 = .ok (.ok .var) := by
    rw [parse, hlexed]
    rfl
  have htokens : Scanner.tokensAt "x".toList 16 0 = .ok (tokens "x".toList) :=
    tokensAt_start (by decide)
  have hparse : parse "x".toList 16 = .ok (Expr.parse "x".toList) := parse_text (by decide)
  refine ⟨?_, ?_, .var, 1, rfl, Nat.lt_irrefl 1⟩
  · exact Except.ok.inj (htokens.symm.trans hlexed)
  · exact Except.ok.inj (hparse.symm.trans hparsed)

def brokenOff : List Token :=
  [⟨.name "sin", 0⟩, ⟨.opening, 3⟩, ⟨.name "x", 4⟩, ⟨.comma, 5⟩]

def closedOff : List Token :=
  brokenOff ++ [⟨.closing, 6⟩]

theorem reading_ends_broken_off :
    ("sin(x,".toList.length < 64 ∧ tokens "sin(x,".toList = .ok brokenOff) ∧
      (0 ≤ brokenOff.length ∧ 8 * (brokenOff.length - 0 + 1) ≤ 64 ∧
        Parser.sequence brokenOff = .error .unexpectedEnd) ∧
      (1 ≤ closedOff.length ∧ 8 * (closedOff.length - 1 + 1) ≤ 64 ∧
        identifier (tape closedOff) "sin" 64 [] 1 = .ok (.ok (.unaryCall .sin .var [], 5)) ∧
        (∃ q, closedOff[1]? = some ⟨.opening, q⟩) ∧ ∃ q, closedOff[4]? = some ⟨.closing, q⟩) ∧
      (2 ≤ closedOff.length ∧ 8 * (closedOff.length - 2 + 1) ≤ 64 ∧
        arguments (tape closedOff) 3 64 [] 2 = .ok (.ok ([.var], 5)) ∧
        (2 < 5 ∧ 5 ≤ closedOff.length) ∧ ∃ q, closedOff[4]? = some ⟨.closing, q⟩) ∧
      8 * ("sin(x,".toList.length + 1) ≤ 64 ∧
        Expr.parse "sin(x,".toList = .error .unexpectedEnd := by
  obtain ⟨hlexing, hreading, hparsing⟩ := reading_ends 64
  have hlexed : Scanner.tokensAt "sin(x,".toList 64 0 = .ok (.ok brokenOff) := rfl
  have hparsed : parse "sin(x,".toList 64 = .ok (.error .unexpectedEnd) := by
    rw [parse, hlexed]
    rfl
  have hcalled : identifier (tape closedOff) "sin" 64 [] 1 =
      .ok (.ok (.unaryCall .sin .var [], 5)) := rfl
  have hclosed : arguments (tape closedOff) 3 64 [] 2 = .ok (.ok ([.var], 5)) := rfl
  have htokens := (hlexing "sin(x,".toList (by decide)).1
  obtain ⟨hlevels, -⟩ := hreading brokenOff 0 (by decide) (by decide)
  obtain ⟨-, hnames, -⟩ := hreading closedOff 1 (by decide) (by decide)
  obtain ⟨harguments, hclosing⟩ := (hreading closedOff 2 (by decide) (by decide)).2.2 3
  have hparse := hparsing "sin(x,".toList (by decide)
  refine ⟨⟨by decide, ?_⟩, ⟨by decide, by decide, ?_⟩, ⟨by decide, by decide, hcalled, ?_⟩,
    ⟨by decide, by decide, hclosed, ?_, ?_⟩, by decide, ?_⟩
  · exact Except.ok.inj (htokens.symm.trans hlexed)
  · exact (hlevels .sequence).eq_error rfl
  · rcases (hnames "sin").stops _ _ hcalled with ⟨hstays, -⟩ | ⟨-, -, hcall⟩
    · cases hstays
    · exact hcall
  · exact harguments.stops _ _ hclosed
  · exact hclosing _ _ hclosed
  · exact Except.ok.inj (hparse.symm.trans hparsed)

end Cursor

end SparkTrail.Expr
