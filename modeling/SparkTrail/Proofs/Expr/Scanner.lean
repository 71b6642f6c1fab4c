import SparkTrail.Proofs.Expr.Partition

/-!
# Lexing by bytes with every step checked

A program that cuts a text into tokens keeps a place in it, counted in bytes, looks at what begins
there and moves on behind it. It goes wrong where a place is within a character, and it does not
come to an end where nothing is moved over. Here it stops at both, and also when more is done than
was allowed for. It never stops so if more is allowed for than there are characters, and then it
finds the tokens of the text.
-/
namespace SparkTrail.Expr

open String (utf8Len)
open Text (EndsRun)

/-- What reading must not come to. -/
inductive Stall where
  /-- A text is cut within a character or behind its end. -/
  | offBoundary
  /-- A token is looked at that is not there. -/
  | noToken
  /-- Something begins again, and nothing has been used up since it began before. -/
  | noProgress
  /-- There is more to do than was allowed for. -/
  | tooLong
  deriving DecidableEq, Repr

namespace Scanner

/-- The characters in front of a place and those behind it, if it is not within a character or
behind the end. -/
def cut? : List Char → (place : Nat) → Option (List Char × List Char)
  | [], place => if place = 0 then some ([], []) else none
  | c :: cs, place =>
    if place = 0 then some ([], c :: cs)
    else if c.utf8Size ≤ place then
      (cut? cs (place - c.utf8Size)).map fun (front, back) => (c :: front, back)
    else none

def restAt (text : List Char) (place : Nat) : Except Stall (List Char) :=
  match cut? text place with
  | some (_, rest) => .ok rest
  | none => .error .offBoundary

def slice (text : List Char) (start stop : Nat) : Except Stall (List Char) := do
  match cut? (← restAt text start) (stop - start) with
  | some (front, _) => return front
  | none => throw .offBoundary

/-- The place behind the characters of a kind, moving over one at a time. -/
def skip (kind : Char → Bool) (text : List Char) : (allowance place : Nat) → Except Stall Nat
  | 0, _ => .error .tooLong
  | allowance + 1, place => do
    match ← restAt text place with
    | c :: _ => if kind c then skip kind text allowance (place + c.utf8Size) else return place
    | [] => return place

/-- The token that a mark begins, and how often the mark is written in it. -/
def mark? (c : Char) (next : Option Char) : Option (TokenKind × Nat) :=
  match c with
  | '+' => some (if next = some '+' then (.step .increment, 2) else (.plus, 1))
  | '-' => some (if next = some '-' then (.step .decrement, 2) else (.minus, 1))
  | '*' => some (.star, 1)
  | '/' => some (.slash, 1)
  | '(' => some (.opening, 1)
  | ')' => some (.closing, 1)
  | ',' => some (.comma, 1)
  | _ => none

/-- The next token and the place behind it; there is none where only blanks are left. -/
def nextToken (text : List Char) (allowance place : Nat) :
    Except Stall (Except Error (Option Token × Nat)) := do
  let start ← skip Text.isBlank text allowance place
  match ← restAt text start with
  | [] => return .ok (none, start)
  | c :: cs =>
    if isNumeral c then
      let stop ← skip isNumeral text allowance start
      let literal ← slice text start stop
      match Decimal.read? literal with
      | some v => return .ok (some ⟨.number v, start⟩, stop)
      | none => return .error (.invalidNumber (String.ofList literal) start)
    else if isNameStart c then
      let stop ← skip isNameRest text allowance start
      let name ← slice text start stop
      return .ok (some ⟨.name (String.ofList name), start⟩, stop)
    else
      match mark? c cs.head? with
      | some (kind, count) => return .ok (some ⟨kind, start⟩, start + count * c.utf8Size)
      | none => return .error (.unexpectedChar c start)

/-- The tokens from a place on, up to the end of the text. -/
def tokensAt (text : List Char) : (allowance place : Nat) →
    Except Stall (Except Error (List Token))
  | 0, _ => .error .tooLong
  | allowance + 1, place => do
    match ← nextToken text (allowance + 1) place with
    | .error err => return .error err
    | .ok (none, _) => return .ok []
    | .ok (some t, stop) =>
      if t.position < stop then
        return (← tokensAt text allowance stop).map (t :: ·)
      else throw .noProgress

variable {text before rest front back cs : List Char} {c : Char} {k : TokenKind}
  {kind : Char → Bool} {allowance n p : Nat} {err : Error}

/-- Where a text is put together from two, there is a place to cut it. -/
theorem cut?_append (front back : List Char) :
    cut? (front ++ back) (utf8Len front) = some (front, back) := by
  induction front with
  | nil => cases back <;> rfl
  | cons c front ih =>
    have hpos := c.utf8Size_pos
    rw [List.cons_append, cut?, String.utf8Len_cons, if_neg (by omega), if_pos (by omega),
      Nat.add_sub_cancel, ih]
    rfl

/-- A place at which a text can be cut tells how many bytes are in front of it. -/
theorem eq_of_cut? (h : cut? text p = some (front, back)) :
    text = front ++ back ∧ utf8Len front = p := by
  induction text generalizing p front with
  | nil =>
    rw [cut?] at h
    split at h
    · cases h
      exact ⟨rfl, by simp [*]⟩
    · cases h
  | cons c text ih =>
    rw [cut?] at h
    split at h
    · cases h
      exact ⟨rfl, by simp [*]⟩
    · split at h
      · obtain ⟨⟨front', back'⟩, hcut, heq⟩ := Option.map_eq_some_iff.mp h
        cases heq
        obtain ⟨rfl, hlen⟩ := ih hcut
        exact ⟨rfl, by rw [String.utf8Len_cons, hlen]; omega⟩
      · cases h

theorem restAt_eq (htext : text = before ++ rest) : restAt text (utf8Len before) = .ok rest := by
  rw [restAt, htext, cut?_append]

theorem slice_eq (htext : text = before ++ (front ++ back)) :
    slice text (utf8Len before) (utf8Len (before ++ front)) = .ok front := by
  rw [slice, restAt_eq htext, String.utf8Len_append, Nat.add_sub_cancel_left]
  show (match cut? (front ++ back) (utf8Len front) with | some (f, _) => _ | none => _) = _
  rw [cut?_append]
  rfl

/-- A run is moved over from its first character to its last. -/
theorem skip_eq (htext : text = before ++ (front ++ back)) (hrun : ∀ c ∈ front, kind c = true)
    (hends : EndsRun kind back) (hallowed : front.length < allowance) :
    skip kind text allowance (utf8Len before) = .ok (utf8Len (before ++ front)) := by
  induction front generalizing before allowance with
  | nil =>
    obtain ⟨allowance, rfl⟩ := Nat.exists_eq_add_of_lt hallowed
    rw [List.append_nil, skip, restAt_eq htext]
    cases back with
    | nil => rfl
    | cons c back =>
      show (if kind c then _ else _) = _
      rw [hends c rfl]
      rfl
  | cons c front ih =>
    obtain ⟨hc, hfront⟩ := List.forall_mem_cons.mp hrun
    obtain ⟨allowance, rfl⟩ := Nat.exists_eq_add_of_lt hallowed
    rw [skip, restAt_eq htext]
    show (if kind c then _ else _) = _
    have hnext : text = (before ++ [c]) ++ (front ++ back) := by simp [htext]
    have hplace : utf8Len before + c.utf8Size = utf8Len (before ++ [c]) := by
      rw [String.utf8Len_append, String.utf8Len_cons, String.utf8Len_nil, Nat.zero_add]
    have hfewer : front.length < (c :: front).length + allowance := by
      rw [List.length_cons]
      omega
    rw [hc, if_pos rfl, hplace, ih hnext hfront hfewer, List.append_assoc]
    rfl

/-- A sign is taken as the lexer takes it. -/
theorem lexeme_sign (s : Step) (p : Nat) (next : Option Char) (h : next = cs.head?) :
    ∃ k count, mark? s.sign next = some (k, count + 1) ∧ lexeme p s.sign cs = .ok (k, count) := by
  by_cases hsame : next = some s.sign
  · refine ⟨.step s, 1, ?_, ?_⟩
    · cases s <;> exact congrArg some (if_pos hsame)
    · cases s <;> exact if_pos (h ▸ hsame)
  · refine ⟨s.single, 0, ?_, ?_⟩
    · cases s <;> exact congrArg some (if_neg hsame)
    · cases s <;> exact if_neg (h ▸ hsame)

/-- What is neither a numeral nor a name is taken as the lexer takes it. -/
theorem lexeme_mark (hn : isNumeral c = false) (hs : isNameStart c = false) (p : Nat)
    (cs : List Char) :
    (isMark c = true ∧
        ∃ k count, mark? c cs.head? = some (k, count + 1) ∧ lexeme p c cs = .ok (k, count)) ∨
      mark? c cs.head? = none ∧ lexeme p c cs = .error (.unexpectedChar c p) := by
  by_cases hm : isMark c = true
  · refine .inl ⟨hm, ?_⟩
    have hmark : c = '+' ∨ c = '-' ∨ c ∈ marks.map Prod.fst := by simpa [isMark, marks] using hm
    rcases hmark with rfl | rfl | hmem
    · exact lexeme_sign .increment p _ rfl
    · exact lexeme_sign .decrement p _ rfl
    · obtain ⟨⟨d, k⟩, hk, rfl⟩ := List.mem_map.mp hmem
      have hlexeme : IsLexeme k [d] cs := .mark hk
      refine ⟨k, 0, ?_, lexeme_of_isLexeme hlexeme p⟩
      simp only [marks, List.mem_cons, Prod.mk.injEq, List.not_mem_nil, or_false] at hk
      rcases hk with ⟨rfl, rfl⟩ | ⟨rfl, rfl⟩ | ⟨rfl, rfl⟩ | ⟨rfl, rfl⟩ | ⟨rfl, rfl⟩ <;> rfl
  · refine .inr ⟨?_, lexeme_foreign (by simp [isLexical, hn, hs, hm]) p cs⟩
    unfold mark?
    split
    case h_8 => rfl
    all_goals exact absurd rfl hm

/-- Where only blanks are left there is no token. -/
theorem nextToken_of_allBlank (htext : text = before ++ (front ++ [])) (hblank : AllBlank front)
    (hallowed : front.length < allowance) :
    nextToken text allowance (utf8Len before) = .ok (.ok (none, utf8Len (before ++ front))) := by
  have hrest : text = before ++ front ++ [] := by rw [htext, List.append_assoc]
  rw [nextToken, skip_eq htext hblank Text.endsRun_nil hallowed]
  show (restAt text (utf8Len (before ++ front)) >>= _) = _
  rw [restAt_eq hrest]
  rfl

theorem utf8Size_of_isLexical (h : isLexical c = true) : c.utf8Size = 1 := by
  have hone : ∀ d ∈ [c], isLexical d = true := List.forall_mem_singleton.mpr h
  have hlen := utf8Len_of_isLexical hone
  rwa [String.utf8Len_cons, String.utf8Len_nil, Nat.zero_add] at hlen

/-- A run of one-byte characters is moved over and sliced out as the lexer takes it. -/
theorem run_eq (htext : text = before ++ c :: cs) (hc : kind c = true)
    (hlexical : ∀ d, kind d = true → isLexical d = true)
    (hallowed : (c :: cs).length < allowance) :
    skip kind text allowance (utf8Len before) =
        .ok (utf8Len before + (1 + (cs.takeWhile kind).length)) ∧
      slice text (utf8Len before) (utf8Len before + (1 + (cs.takeWhile kind).length)) =
        .ok (c :: cs.takeWhile kind) := by
  obtain ⟨more, back, rfl, hmore, hends⟩ := exists_run kind cs
  have hrun : ∀ d ∈ c :: more, kind d = true := List.forall_mem_cons.mpr ⟨hc, hmore⟩
  have hplace : utf8Len before + (1 + more.length) = utf8Len (before ++ c :: more) := by
    rw [String.utf8Len_append, utf8Len_of_isLexical fun d hd => hlexical d (hrun d hd),
      List.length_cons, Nat.add_comm 1]
  rw [List.length_cons, List.length_append] at hallowed
  rw [Text.takeWhile_run hmore hends, hplace]
  exact ⟨skip_eq htext hrun hends (by rw [List.length_cons]; omega), slice_eq htext⟩

/-- Behind blanks the next token is what the lexer takes there. -/
theorem nextToken_eq {gap : List Char} (htext : text = before ++ (gap ++ c :: cs))
    (hgap : AllBlank gap) (hblank : Text.isBlank c = false)
    (hallowed : (gap ++ c :: cs).length < allowance) :
    nextToken text allowance (utf8Len before) =
      .ok ((lexeme (utf8Len (before ++ gap)) c cs).map fun (k, count) =>
        (some ⟨k, utf8Len (before ++ gap)⟩, utf8Len (before ++ gap) + (1 + count))) := by
  rw [List.length_append] at hallowed
  have hrest : text = before ++ gap ++ c :: cs := by rw [htext, List.append_assoc]
  rw [nextToken, skip_eq htext hgap (Text.endsRun_cons hblank cs) (by omega)]
  show (restAt text (utf8Len (before ++ gap)) >>= _) = _
  rw [restAt_eq hrest]
  generalize before ++ gap = start at hrest
  have hfewer : (c :: cs).length < allowance := by omega
  show (if isNumeral c then _ else _) = _
  cases hn : isNumeral c with
  | true =>
    obtain ⟨hskip, hslice⟩ :=
      run_eq hrest hn (fun _ => isLexical_of_isNumeral) hfewer
    rw [if_pos rfl, hskip, lexeme.eq_def, if_pos hn]
    show (slice text _ _ >>= _) = _
    rw [hslice]
    show (match Decimal.read? (c :: cs.takeWhile isNumeral) with | some v => _ | none => _) = _
    dsimp only
    cases Decimal.read? (c :: cs.takeWhile isNumeral) <;> rfl
  | false =>
    cases hs : isNameStart c with
    | true =>
      have hrest' : isNameRest c = true := by simp [isNameRest, hs]
      obtain ⟨hskip, hslice⟩ :=
        run_eq hrest hrest' (fun _ => isLexical_of_isNameRest) hfewer
      rw [if_neg Bool.false_ne_true, if_pos rfl, hskip, lexeme.eq_def, if_neg (by simp [hn]),
        if_pos hs]
      show (slice text _ _ >>= _) = _
      rw [hslice]
      rfl
    | false =>
      rw [if_neg Bool.false_ne_true, if_neg Bool.false_ne_true]
      rcases lexeme_mark hn hs (utf8Len start) cs with ⟨hm, k, count, hmark, hl⟩ | ⟨hmark, hl⟩
      · have hsize : c.utf8Size = 1 := utf8Size_of_isLexical (by simp [isLexical, hm])
        rw [hmark, hl]
        show Except.ok (Except.ok (some _, utf8Len start + (count + 1) * c.utf8Size)) = _
        rw [hsize, Nat.mul_one, Nat.add_comm count]
        rfl
      · rw [hmark, hl]
        rfl

/-- What is left behind a lexeme begins where the lexeme ends. -/
theorem behind_lexeme (hblank : Text.isBlank c = false) (hl : lexeme p c cs = .ok (k, n)) :
    ∃ lexeme, c :: cs = lexeme ++ cs.drop n ∧ utf8Len lexeme = 1 + n := by
  have hsplit : c :: cs = (c :: cs.take n) ++ cs.drop n := by
    rw [List.cons_append, List.take_append_drop]
  refine ⟨c :: cs.take n, hsplit, ?_⟩
  have hlength := lexeme_length hblank hl
  rw [hsplit, String.utf8Len_append] at hlength
  omega

/-- As many steps as there are characters, and one for the end, are enough for all tokens of a
text. -/
theorem tokensAt_eq (htext : text = before ++ rest) (hallowed : rest.length < allowance) :
    tokensAt text allowance (utf8Len before) = .ok (tokensFrom (utf8Len before) rest) := by
  induction allowance generalizing before rest with
  | zero => exact absurd hallowed (Nat.not_lt_zero _)
  | succ allowance ih =>
    -- one round moves over a gap and then, unless the text ends there, over a lexeme or to a fault
    obtain ⟨gap, rest, rfl, hgap, hends⟩ := exists_run Text.isBlank rest
    rw [tokensFrom_of_allBlank hgap, ← String.utf8Len_append, tokensAt]
    cases rest with
    | nil =>
      rw [List.append_nil] at hallowed
      rw [nextToken_of_allBlank htext hgap hallowed, tokensFrom_nil]
      rfl
    | cons c cs =>
      have hblank := hends c rfl
      rw [nextToken_eq htext hgap hblank hallowed]
      cases hl : lexeme (utf8Len (before ++ gap)) c cs with
      | error err =>
        rw [tokensFrom_of_lexeme_error hblank hl]
        rfl
      | ok r =>
        obtain ⟨k, count⟩ := r
        obtain ⟨lexeme, hsplit, hlength⟩ := behind_lexeme hblank hl
        have hnext : text = (before ++ gap ++ lexeme) ++ cs.drop count := by
          rw [htext, hsplit]
          simp only [List.append_assoc]
        have hplace : utf8Len (before ++ gap) + (1 + count) =
            utf8Len (before ++ gap ++ lexeme) := by
          rw [String.utf8Len_append _ lexeme, hlength]
        have hfewer : (cs.drop count).length < allowance := by
          rw [List.length_append, List.length_cons] at hallowed
          rw [List.length_drop]
          omega
        rw [tokensFrom_lexeme hblank hl, Nat.add_assoc, hplace]
        show (if utf8Len (before ++ gap) < utf8Len (before ++ gap) + (1 + count) then
          tokensAt text allowance (utf8Len (before ++ gap) + (1 + count)) >>= _ else _) = _
        rw [if_pos (by omega), hplace, ih hnext hfewer]
        rfl

/-- At every place between characters the next token is found or refused, or there is none; the
search ends between characters, and behind the character that the token begins with. -/
theorem nextToken_ends (hplace : (cut? text p).isSome = true) (hallowed : text.length < allowance) :
    ∃ outcome, nextToken text allowance p = .ok outcome ∧
      ∀ found stop, outcome = .ok (found, stop) → (cut? text stop).isSome = true ∧
        ∀ t, found = some t →
          p ≤ t.position ∧ t.position < stop ∧ (cut? text t.position).isSome = true := by
  obtain ⟨⟨before, rest⟩, hcut⟩ := Option.isSome_iff_exists.mp hplace
  obtain ⟨htext, rfl⟩ := eq_of_cut? hcut
  have hboundary : ∀ front back, text = front ++ back →
      (cut? text (utf8Len front)).isSome = true := by
    rintro front back rfl
    rw [cut?_append]
    rfl
  obtain ⟨gap, rest, rfl, hgap, hends⟩ := exists_run Text.isBlank rest
  have hrest : text = before ++ gap ++ rest := by rw [htext, List.append_assoc]
  have hfewer : (gap ++ rest).length < allowance := by
    rw [htext, List.length_append] at hallowed
    omega
  cases rest with
  | nil =>
    refine ⟨_, nextToken_of_allBlank htext hgap (by simpa using hfewer), ?_⟩
    intro found stop heq
    cases heq
    exact ⟨hboundary _ _ hrest, fun t ht => by cases ht⟩
  | cons c cs =>
    have hblank := hends c rfl
    refine ⟨_, nextToken_eq htext hgap hblank hfewer, ?_⟩
    cases hl : lexeme (utf8Len (before ++ gap)) c cs with
    | error err =>
      intro found stop heq
      cases heq
    | ok r =>
      obtain ⟨k, count⟩ := r
      obtain ⟨lexeme, hsplit, hlength⟩ := behind_lexeme hblank hl
      have hstop : text = (before ++ gap ++ lexeme) ++ cs.drop count := by
        rw [hrest, hsplit]
        simp only [List.append_assoc]
      intro found stop heq
      cases heq
      constructor
      · rw [← hlength, ← String.utf8Len_append]
        exact hboundary _ _ hstop
      · intro t ht
        cases ht
        refine ⟨?_, by simp only; omega, hboundary _ _ hrest⟩
        rw [String.utf8Len_append]
        exact Nat.le_add_right _ _

end Scanner

end SparkTrail.Expr
