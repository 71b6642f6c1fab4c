import SparkTrail.Proofs.Expr.Pieces

/-!
# The lexer partitions the text

The tokens, with the blanks between them, are the whole text, and each is as long as it can be from
where it starts: to the left it is bounded by a blank or by the token before it. What becomes of a
run of equal signs can be told from their number, because a sign belongs to no other token. The
lexer fails at the first fault behind well cut pieces, and nowhere else.
-/
namespace SparkTrail.Expr

open String (utf8Len)
open Text (EndsRun)

/-- The tokens of `n` equal signs the first of which is the byte `position`: steps of two signs
each, and behind them one sign alone if the number is odd. -/
def signTokens (s : Step) (position n : Nat) : List Token :=
  (List.range (n / 2)).map (fun i => ⟨.step s, position + 2 * i⟩) ++
    if n % 2 = 1 then [⟨s.single, position + (n - 1)⟩] else []

variable {cs rest more lexeme : List Char} {pieces : List Piece} {ts : List Token} {k : TokenKind}
  {p : Nat} {err : Error} {s : Step}

section End

/-- What the lexer takes from a text at a character that is no blank. -/
theorem lexeme_length {c : Char} {n : Nat} (hb : Text.isBlank c = false)
    (h : Expr.lexeme p c cs = .ok (k, n)) : 1 + n + utf8Len (cs.drop n) = utf8Len (c :: cs) := by
  rcases lexeme_or_fault hb cs with ⟨k', more, rest, rfl, hl⟩ | hfault
  · cases (lexeme_of_isLexeme hl p).symm.trans h
    rw [List.drop_left, ← List.cons_append, String.utf8Len_append,
      utf8Len_of_isLexical hl.isLexical, List.length_cons, Nat.add_comm more.length]
  · obtain ⟨err, herr⟩ := hfault p
    obtain ⟨d, more, heq, -, hl⟩ := lexeme_of_isFault herr
    obtain ⟨rfl, rfl⟩ := List.cons.inj heq
    cases hl.symm.trans h

/-- The search ends at the end of the text. -/
theorem scan_eq (p : Nat) (cs : List Char) :
    scan p cs = (tokensFrom p cs).map fun ts => (ts, p + utf8Len cs) := by
  induction hn : cs.length using Nat.strongRecOn generalizing cs p with
  | ind n ih =>
    subst hn
    cases cs with
    | nil =>
      rw [scan_nil, tokensFrom_nil]
      rfl
    | cons c cs =>
      cases hb : Text.isBlank c with
      | true =>
        rw [scan_cons, if_pos hb, tokensFrom_blank hb, ih cs.length (Nat.lt_succ_self _) _ cs rfl,
          String.utf8Len_cons, Nat.add_comm (utf8Len cs), Nat.add_assoc]
      | false =>
        rw [scan_cons, if_neg (by simp [hb])]
        cases hl : Expr.lexeme p c cs with
        | error err =>
          rw [tokensFrom_of_lexeme_error hb hl]
          rfl
        | ok r =>
          obtain ⟨k, n⟩ := r
          have hshorter : (cs.drop n).length < (c :: cs).length := by
            rw [List.length_drop, List.length_cons]
            omega
          rw [tokensFrom_lexeme hb hl, ← lexeme_length hb hl]
          show (scan (p + 1 + n) (cs.drop n) >>= _) = _
          rw [ih _ hshorter _ _ rfl, Nat.add_assoc p 1 n, Nat.add_assoc p (1 + n)]
          cases tokensFrom (p + (1 + n)) (cs.drop n) <;> rfl

end End

section Signs

theorem not_isNumeral_sign (s : Step) : isNumeral s.sign = false := by
  cases s <;> decide

theorem not_isNameRest_sign (s : Step) : isNameRest s.sign = false := by
  cases s <;> decide

theorem utf8Len_sign (s : Step) : utf8Len [s.sign] = 1 := by
  cases s <;> decide

/-- Two signs more are one more step in front; whether the last sign stands alone stays the same. -/
theorem signTokens_add_two (s : Step) (p n : Nat) :
    signTokens s p (n + 2) = ⟨.step s, p⟩ :: signTokens s (p + 2) n := by
  have hsteps : (List.range ((n + 2) / 2)).map (fun i => (⟨.step s, p + 2 * i⟩ : Token)) =
      ⟨.step s, p⟩ :: (List.range (n / 2)).map fun i => ⟨.step s, p + 2 + 2 * i⟩ := by
    rw [show (n + 2) / 2 = n / 2 + 1 by omega, List.range_succ_eq_map, List.map_cons, List.map_map]
    refine congrArg (List.cons _) (List.map_congr_left fun i _ => ?_)
    show (⟨.step s, p + 2 * (i + 1)⟩ : Token) = ⟨.step s, p + 2 + 2 * i⟩
    rw [show p + 2 * (i + 1) = p + 2 + 2 * i by omega]
  rw [signTokens, signTokens, hsteps, Nat.add_mod_right]
  by_cases hodd : n % 2 = 1
  · rw [if_pos hodd, if_pos hodd, show p + (n + 2 - 1) = p + 2 + (n - 1) by omega]
    rfl
  · rw [if_neg hodd, if_neg hodd]
    rfl

/-- Equal signs are taken two by two. -/
theorem tokensFrom_signs (h : rest.head? ≠ some s.sign) (n p : Nat) :
    tokensFrom p (List.replicate n s.sign ++ rest) =
      (tokensFrom (p + n) rest).map (signTokens s p n ++ ·) := by
  match n with
  | 0 => exact (map_nil_append _).symm
  | 1 =>
    show tokensFrom p ([s.sign] ++ rest) = _
    rw [tokensFrom_of_isLexeme (.sign s h), utf8Len_sign]
    rfl
  | n + 2 =>
    have hlength : utf8Len [s.sign, s.sign] = 2 := by cases s <;> decide
    show tokensFrom p ([s.sign, s.sign] ++ (List.replicate n s.sign ++ rest)) = _
    rw [tokensFrom_of_isLexeme (.step s), hlength, tokensFrom_signs h n (p + 2), signTokens_add_two,
      Nat.add_assoc, Nat.add_comm 2 n]
    exact map_append_map [⟨.step s, p⟩] _ _

theorem endsRun_append_sign {kind : Char → Bool} (h : EndsRun kind rest) (hs : kind s.sign = false)
    (more : List Char) : EndsRun kind (rest ++ s.sign :: more) := by
  cases rest with
  | nil => exact Text.endsRun_cons hs more
  | cons d rest => exact Text.endsRun_cons (h d rfl) _

theorem getLast?_ne_of_append {front back : List Char} {c : Char}
    (h : (front ++ back).getLast? ≠ some c) : back.getLast? ≠ some c := by
  intro hlast
  exact h (by rw [List.getLast?_append, hlast]; rfl)

/-- A lexeme stays one where a sign is put behind what follows it, but for two signs that meet. -/
theorem IsLexeme.append_sign (h : IsLexeme k lexeme rest)
    (hlast : (lexeme ++ rest).getLast? ≠ some s.sign) (more : List Char) :
    IsLexeme k lexeme (rest ++ s.sign :: more) := by
  cases h with
  | number hrun hr hv =>
    exact .number hrun (endsRun_append_sign hr (not_isNumeral_sign s) more) hv
  | name hc hmore hr =>
    exact .name hc hmore (endsRun_append_sign hr (not_isNameRest_sign s) more)
  | sign s' hr =>
    refine .sign s' ?_
    cases rest with
    | nil =>
      intro hmeet
      exact hlast hmeet.symm
    | cons d rest => exact hr
  | step s' => exact .step s'
  | mark hm => exact .mark hm

/-- Pieces stay cut as they are where signs are put behind a text that does not end with one. -/
theorem Cuts.append_sign (h : Cuts pieces rest)
    (hlast : (Piece.text pieces ++ rest).getLast? ≠ some s.sign) (more : List Char) :
    Cuts pieces (rest ++ s.sign :: more) := by
  induction h with
  | nil => exact .nil
  | @cons piece pieces rest hgap hl _ ih =>
    rw [Piece.text, List.append_assoc, List.append_assoc] at hlast
    have hlexeme := getLast?_ne_of_append hlast
    refine .cons hgap ?_ (ih (getLast?_ne_of_append hlexeme))
    rw [← List.append_assoc]
    exact hl.append_sign hlexeme more

theorem IsFault.append_sign (h : IsFault p rest err) (s : Step) (more : List Char) :
    IsFault p (rest ++ s.sign :: more) err := by
  cases h with
  | numeral hne hrun hr hm =>
    rw [List.append_assoc]
    exact .numeral hne hrun (endsRun_append_sign hr (not_isNumeral_sign s) more) hm
  | char hb hl => exact .char hb hl

/-- The signs of a run are tokens by themselves, between the tokens before them and those behind. -/
theorem tokens_of_signs {before after : List Char} {n : Nat}
    (h : tokens (before ++ (List.replicate n s.sign ++ after)) = .ok ts) (hn : 0 < n)
    (hbefore : before.getLast? ≠ some s.sign) (hafter : after.head? ≠ some s.sign) :
    ∃ front back, ts = front ++ (signTokens s (utf8Len before) n ++ back) ∧
      (∀ t ∈ front, t.position < utf8Len before) ∧
      ∀ t ∈ back, utf8Len before + n ≤ t.position := by
  obtain ⟨m, rfl⟩ := Nat.exists_eq_succ_of_ne_zero (Nat.ne_of_gt hn)
  obtain ⟨pieces, gap, rest, rfl, hcuts, hgap, hend⟩ := exists_cuts before
  have hcuts' := hcuts.append_sign hbefore (List.replicate m s.sign ++ after)
  rw [List.append_assoc] at hcuts'
  rw [tokens, List.append_assoc, List.append_assoc, List.replicate_succ, List.cons_append,
    tokensFrom_of_cuts_gap hcuts' hgap, Nat.zero_add] at h
  rcases hend with rfl | hfault
  · rw [List.nil_append, ← List.cons_append, ← List.replicate_succ, tokensFrom_signs hafter] at h
    rw [List.append_nil]
    cases hback : tokensFrom (utf8Len (Piece.text pieces ++ gap) + (m + 1)) after with
    | error err =>
      rw [hback] at h
      cases h
    | ok back =>
      rw [hback] at h
      cases h
      refine ⟨Piece.tokens 0 pieces, back, rfl, ?_, ?_⟩
      · intro t ht
        have hbounds := hcuts.bounds ht
        rw [String.utf8Len_append]
        omega
      · intro t ht
        obtain ⟨pieces', last, -, hcuts'', -, rfl⟩ := tokensFrom_eq_ok_iff.mp hback
        exact (hcuts''.bounds ht).1
  · obtain ⟨err, herr⟩ := hfault (utf8Len (Piece.text pieces ++ gap))
    rw [tokensFrom_of_isFault (herr.append_sign s _)] at h
    cases h

end Signs

/-- Where there are tokens, they and the blanks between them are the text: each token stands at the
byte where its lexeme starts, these bytes increase, and behind the last token the end of the text is
found where the text ends. Of `n` equal signs in a row two at a time are a step, and the last one of
an odd number stands alone. There are no tokens just where behind well cut pieces and blanks there
is a fault, which is the one that is reported. -/
theorem tokens_partition (text : List Char) :
    (∀ ts, tokens text = .ok ts →
      (∃ pieces last, text = Piece.text pieces ++ last ∧ Cuts pieces last ∧ AllBlank last ∧
        ts = Piece.tokens 0 pieces) ∧
      scan 0 text = .ok (ts, utf8Len text) ∧
      ts.Pairwise (·.position < ·.position) ∧
      (∀ t ∈ ts, ∃ before lexeme after, text = before ++ (lexeme ++ after) ∧
        t.position = utf8Len before ∧ IsLexeme t.kind lexeme after) ∧
      ∀ s before n after, text = before ++ (List.replicate n (Step.sign s) ++ after) → 0 < n →
        before.getLast? ≠ some s.sign → after.head? ≠ some s.sign →
        ∃ front back, ts = front ++ (signTokens s (utf8Len before) n ++ back) ∧
          (∀ t ∈ front, t.position < utf8Len before) ∧
          ∀ t ∈ back, utf8Len before + n ≤ t.position) ∧
    ∀ err, tokens text = .error err ↔ ∃ pieces gap rest,
      text = Piece.text pieces ++ (gap ++ rest) ∧ Cuts pieces (gap ++ rest) ∧ AllBlank gap ∧
        IsFault (utf8Len (Piece.text pieces ++ gap)) rest err := by
  refine ⟨?_, ?_⟩
  · intro ts h
    obtain ⟨pieces, last, htext, hcuts, hlast, hts⟩ := tokensFrom_eq_ok_iff.mp h
    refine ⟨⟨pieces, last, htext, hcuts, hlast, hts⟩, ?_, hts ▸ hcuts.pairwise 0, ?_, ?_⟩
    · have htokens : tokensFrom 0 text = .ok ts := h
      rw [scan_eq, htokens, Nat.zero_add]
      rfl
    · intro t ht
      obtain ⟨before, lexeme, after, hplace, hposition, hl⟩ := hcuts.exists_place (hts ▸ ht)
      exact ⟨before, lexeme, after, htext.trans hplace, hposition.trans (Nat.zero_add _), hl⟩
    · intro s before n after hrun hn hbefore hafter
      exact tokens_of_signs (hrun ▸ h) hn hbefore hafter
  · intro err
    rw [tokens, tokensFrom_eq_error_iff]
    simp only [Nat.zero_add]

/-- A blank of three bytes before three signs, and digits and dots behind a name that ends with a
digit. -/
theorem tokens_partition_signs :
    (∃ ts, tokens "x\u2003+++x".toList = .ok ts ∧ scan 0 "x\u2003+++x".toList = .ok (ts, 8) ∧
      ∃ front back, ts = front ++ ([⟨.step .increment, 4⟩, ⟨.plus, 6⟩] ++ back) ∧
        (∀ t ∈ front, t.position < 4) ∧ ∀ t ∈ back, 7 ≤ t.position) ∧
    tokens "x1..2".toList = .error (.invalidNumber "..2" 2) := by
  have ht : tokens "x\u2003+++x".toList = .ok [⟨.name "x", 0⟩, ⟨.step .increment, 4⟩, ⟨.plus, 6⟩,
      ⟨.name "x", 7⟩] := by
    simp [tokens, lexeme, isNumeral, isNameStart, isNameRest, Text.isBlank]
    rfl
  obtain ⟨-, hend, -, -, hsigns⟩ := (tokens_partition "x\u2003+++x".toList).1 _ ht
  refine ⟨⟨_, ht, hend, ?_⟩, ?_⟩
  · exact hsigns .increment ['x', '\u2003'] 3 ['x'] rfl (by decide) (by decide) (by decide)
  · have hlexeme : IsLexeme (.name "x1") ['x', '1'] ['.', '.', '2'] :=
      .name (by decide) (List.all_eq_true.mp (by decide)) (Text.endsRun_cons (by decide) _)
    have hmalformed : IsMalformed ['.', '.', '2'] := Or.inr (by decide)
    have hfault : IsFault 2 (['.', '.', '2'] ++ []) (.invalidNumber "..2" 2) :=
      .numeral (List.cons_ne_nil _ _) (List.all_eq_true.mp (by decide)) Text.endsRun_nil hmalformed
    refine ((tokens_partition "x1..2".toList).2 _).mpr
      ⟨[⟨[], ['x', '1'], .name "x1"⟩], [], ['.', '.', '2'], rfl, .cons ?_ hlexeme .nil, ?_, hfault⟩
    · intro c hc
      cases hc
    · intro c hc
      cases hc

end SparkTrail.Expr
