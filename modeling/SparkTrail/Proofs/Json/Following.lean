import SparkTrail.Proofs.Json.Lexing

/-!
# What follows a text in JSON

A text that is cut into tokens is cut into the same ones when something is put behind it, as long as
that cannot be the rest of a number: no lexeme but a number looks beyond its own end.
-/
namespace SparkTrail.Json

open Text (Reading Reads EndsRun reads_some)

variable {cs rest : List Char} {c : Char} {ts : List Token}

theorem not_isDigit_of_endsRun (hr : EndsRun continuesNumeral rest) :
    EndsRun Char.isDigit rest := by
  intro c hc
  have hrest := hr c hc
  simp only [continuesNumeral, Bool.or_eq_false_iff] at hrest
  exact hrest.1.1.1

theorem digits_append (hr : EndsRun Char.isDigit rest) {r : Reading Char (List Char) cs.length}
    (h : digits cs = some r) : Reads (digits (cs ++ rest)) r.value (r.rest ++ rest) := by
  cases cs with
  | nil => cases h
  | cons c cs =>
    by_cases hc : c.isDigit = true
    · rw [digits, if_pos hc] at h
      cases h
      rw [List.cons_append]
      simp only [digits, hc, if_true, Text.takeWhile_append_of_endsRun hr,
        Text.dropWhile_append_of_endsRun hr]
      exact reads_some _
    · rw [digits, if_neg hc] at h
      cases h

theorem wholePart_append (hr : EndsRun Char.isDigit rest) {r : Reading Char (List Char) cs.length}
    (h : wholePart cs = some r) : Reads (wholePart (cs ++ rest)) r.value (r.rest ++ rest) := by
  cases cs with
  | nil => cases h
  | cons c cs =>
    by_cases hc : c = '0'
    · subst hc
      cases h
      exact reads_some _
    · have hwhole (more : List Char) : wholePart (c :: more) = digits (c :: more) := by
        rw [wholePart]
        intro tail heq
        exact hc (List.cons.inj heq).1
      rw [hwhole] at h
      rw [List.cons_append, hwhole]
      exact digits_append hr h

theorem fractionPart_append (hr : EndsRun continuesNumeral rest)
    {r : Reading Char (List Char) (cs.length + 1)} (h : fractionPart cs = some r) :
    Reads (fractionPart (cs ++ rest)) r.value (r.rest ++ rest) := by
  cases cs with
  | nil =>
    cases h
    exact reads_fractionPart hr
  | cons c cs =>
    by_cases hc : c = '.'
    · subst hc
      obtain ⟨r, hr', rfl⟩ := Option.map_eq_some_iff.mp h
      exact (digits_append (not_isDigit_of_endsRun hr) hr').map_widen id _
    · have hnone (more : List Char) : fractionPart (c :: more) =
          some ⟨[], c :: more, Reading.lt_cons _⟩ := by
        rw [fractionPart]
        intro tail heq
        exact hc (List.cons.inj heq).1
      rw [hnone] at h
      cases h
      rw [List.cons_append, hnone]
      exact reads_some _

theorem exponentDigits_append (hr : EndsRun Char.isDigit rest)
    {r : Reading Char (Bool × List Char) cs.length} (h : exponentDigits cs = some r) :
    Reads (exponentDigits (cs ++ rest)) r.value (r.rest ++ rest) := by
  cases cs with
  | nil => cases h
  | cons c cs =>
    by_cases hminus : c = '-'
    · subst hminus
      obtain ⟨r, hdigits, rfl⟩ := Option.map_eq_some_iff.mp h
      exact (digits_append hr hdigits).map_widen (true, ·) _
    · by_cases hplus : c = '+'
      · subst hplus
        obtain ⟨r, hdigits, rfl⟩ := Option.map_eq_some_iff.mp h
        exact (digits_append hr hdigits).map_widen (false, ·) _
      · have hbare (more : List Char) : exponentDigits (c :: more) =
            (digits (c :: more)).map fun r => r.map (false, ·) := by
          rw [exponentDigits]
          · intro tail heq
            exact hminus (List.cons.inj heq).1
          · intro tail heq
            exact hplus (List.cons.inj heq).1
        rw [hbare] at h
        obtain ⟨r, hdigits, rfl⟩ := Option.map_eq_some_iff.mp h
        rw [List.cons_append, hbare]
        exact (digits_append hr hdigits).map (false, ·)

theorem exponentPart_append (hr : EndsRun continuesNumeral rest)
    {r : Reading Char (Option (Bool × List Char)) (cs.length + 1)} (h : exponentPart cs = some r) :
    Reads (exponentPart (cs ++ rest)) r.value (r.rest ++ rest) := by
  have hdigit := not_isDigit_of_endsRun hr
  cases cs with
  | nil =>
    cases h
    exact reads_exponentPart hr
  | cons c cs =>
    by_cases hlower : c = 'e'
    · subst hlower
      obtain ⟨r, hdigits, rfl⟩ := Option.map_eq_some_iff.mp h
      exact (exponentDigits_append hdigit hdigits).map_widen some _
    · by_cases hupper : c = 'E'
      · subst hupper
        obtain ⟨r, hdigits, rfl⟩ := Option.map_eq_some_iff.mp h
        exact (exponentDigits_append hdigit hdigits).map_widen some _
      · have hnone (more : List Char) : exponentPart (c :: more) =
            some ⟨none, c :: more, Reading.lt_cons _⟩ := by
          rw [exponentPart]
          · intro tail heq
            exact hlower (List.cons.inj heq).1
          · intro tail heq
            exact hupper (List.cons.inj heq).1
        rw [hnone] at h
        cases h
        rw [List.cons_append, hnone]
        exact reads_some _

/-- A number is read as it is where nothing follows that it could go on with. -/
theorem numeral_append (hr : EndsRun continuesNumeral rest) {negative : Bool}
    {r : Reading Char Numeral cs.length} (h : numeral negative cs = some r) :
    Reads (numeral negative (cs ++ rest)) r.value (r.rest ++ rest) := by
  obtain ⟨whole, hwhole, h⟩ := Option.bind_eq_some_iff.mp h
  obtain ⟨fraction, hfraction, h⟩ := Option.bind_eq_some_iff.mp h
  obtain ⟨exponent, hexponent, h⟩ := Option.bind_eq_some_iff.mp h
  cases h
  rw [numeral]
  refine (wholePart_append (not_isDigit_of_endsRun hr) hwhole).bind fun _ => ?_
  refine (fractionPart_append hr hfraction).bind fun _ => ?_
  exact (exponentPart_append hr hexponent).bind fun _ => ⟨_, rfl⟩

theorem afterWord_append {word : List Char} {r : Reading Char Unit (cs.length + 1)}
    (h : afterWord word cs = some r) :
    Reads (afterWord word (cs ++ rest)) r.value (r.rest ++ rest) := by
  rw [afterWord] at h
  split at h
  case isFalse => cases h
  case isTrue hword =>
    cases h
    obtain ⟨tail, rfl⟩ := List.isPrefixOf_iff_prefix.mp hword
    have hlonger : word.isPrefixOf (word ++ tail ++ rest) = true := by
      rw [List.append_assoc]
      exact List.isPrefixOf_iff_prefix.mpr (List.prefix_append _ _)
    rw [afterWord, if_pos hlonger, List.append_assoc]
    simp only [List.drop_left]
    exact ⟨_, rfl⟩

/-- A text says itself where it ends, and nothing behind its closing quote is looked at. -/
theorem pieces_append (rest : List Char) {r : Reading Char (List Piece) cs.length}
    (h : pieces cs = some r) : Reads (pieces (cs ++ rest)) r.value (r.rest ++ rest) := by
  induction cs using pieces.induct with
  | case1 => cases h
  | case2 cs =>
    cases h
    exact reads_some _
  | case3 a b c d cs ih =>
    rw [pieces] at h
    obtain ⟨unit, hunit, h⟩ := Option.bind_eq_some_iff.mp h
    obtain ⟨more, hmore, h⟩ := Option.bind_eq_some_iff.mp h
    cases h
    simp only [List.cons_append]
    rw [pieces, hunit]
    exact (ih hmore).bind fun _ => ⟨_, rfl⟩
  | case4 e cs hunit ih =>
    rw [pieces] at h
    · obtain ⟨c, hc, h⟩ := Option.bind_eq_some_iff.mp h
      obtain ⟨more, hmore, h⟩ := Option.bind_eq_some_iff.mp h
      cases h
      simp only [List.cons_append]
      rw [pieces, hc]
      · exact (ih hmore).bind fun _ => ⟨_, rfl⟩
      · rintro a b c d tail rfl
        cases hc
    · exact hunit
  | case5 c cs hquote hunit hescape hlow =>
    rw [pieces, if_pos hlow] at h
    · cases h
    · exact hquote
    · exact hunit
    · exact hescape
  | case6 c cs hquote hunit hescape hlow ih =>
    rw [pieces, if_neg hlow] at h
    · obtain ⟨more, hmore, h⟩ := Option.bind_eq_some_iff.mp h
      cases h
      -- a backslash that nothing follows does not end a text
      have hslash : c ≠ '\\' := by
        rintro rfl
        cases cs with
        | nil => cases hmore
        | cons e cs => exact hescape e cs rfl rfl
      rw [List.cons_append, pieces, if_neg hlow]
      · exact (ih hmore).bind fun _ => ⟨_, rfl⟩
      · exact hquote
      · intro a b d e tail heq
        exact absurd heq hslash
      · intro e tail heq
        exact absurd heq hslash
    · exact hquote
    · exact hunit
    · exact hescape

/-- A token is read as it is whatever follows it, but for a number that could go on. -/
theorem lexeme_append (hr : EndsRun continuesNumeral rest)
    {r : Reading Char Token (cs.length + 1)} (h : lexeme c cs = some r) :
    Reads (lexeme c (cs ++ rest)) r.value (r.rest ++ rest) := by
  rw [lexeme.eq_def] at h
  split at h
  case h_1 | h_2 | h_3 | h_4 | h_5 | h_6 =>
    cases h
    exact reads_some _
  case h_7 | h_8 | h_9 =>
    obtain ⟨r, hword, rfl⟩ := Option.map_eq_some_iff.mp h
    exact (afterWord_append hword).map _
  case h_10 =>
    obtain ⟨r, htext, rfl⟩ := Option.map_eq_some_iff.mp h
    obtain ⟨r, hpieces, rfl⟩ := Option.map_eq_some_iff.mp htext
    exact ((pieces_append rest hpieces).map _).map_widen Token.text _
  case h_11 =>
    obtain ⟨r, hnumeral, rfl⟩ := Option.map_eq_some_iff.mp h
    exact (numeral_append hr hnumeral).map_widen (fun numeral => Token.number numeral.value?) _
  case h_12 =>
    split at h
    case isFalse => cases h
    case isTrue hdigit =>
      obtain ⟨r, hnumeral, rfl⟩ := Option.map_eq_some_iff.mp h
      rw [lexeme_digit hdigit]
      exact (numeral_append hr hnumeral).map _

/-- A text that has tokens keeps them before anything that cannot be the rest of a number. -/
theorem lexes_of_tokens (h : tokens cs = some ts) (hr : EndsRun continuesNumeral rest) :
    Lexes cs ts rest := by
  induction cs using tokens.induct generalizing ts with
  | case1 =>
    rw [tokens] at h
    cases h
    exact lexes_spaces fun c hc => absurd hc List.not_mem_nil
  | case2 c cs hs ih =>
    rw [tokens_space hs] at h
    rw [Lexes, List.cons_append, tokens_space hs]
    exact ih h
  | case3 c cs hs ih =>
    rw [tokens, if_neg hs] at h
    obtain ⟨r, hlexeme, h⟩ := Option.bind_eq_some_iff.mp h
    obtain ⟨more, hmore, h⟩ := Option.bind_eq_some_iff.mp h
    cases h
    have hspace : isSpace c = false := Bool.eq_false_iff.mpr hs
    have hrest : tokens (r.rest ++ rest) = (tokens rest).map (more ++ ·) := ih r hmore
    rw [Lexes, List.cons_append, tokens_lexeme hspace (lexeme_append hr hlexeme), hrest,
      Option.map_map]
    rfl

end SparkTrail.Json
