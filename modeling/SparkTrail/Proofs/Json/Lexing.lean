import SparkTrail.Json.Token
import SparkTrail.Proofs.Decimal.Digits
import SparkTrail.Proofs.Text.Reading

/-!
# Tokens of JSON one after another

`Lexes cs ts rest` says that the text `cs`, standing before `rest`, is cut into the tokens `ts`
whatever becomes of `rest`. Only a number can go on in `rest`; every other token says itself where
it ends.
-/
namespace SparkTrail.Json

open Text (Reading Reads EndsRun isPlain)

variable {cs ds rest : List Char} {ts us : List Token} {t : Token} {c : Char} {n : Nat}

/-- The tokens of `cs ++ rest` are `ts` before the tokens of `rest`. -/
def Lexes (cs : List Char) (ts : List Token) (rest : List Char) : Prop :=
  tokens (cs ++ rest) = (tokens rest).map (ts ++ ·)

theorem Lexes.append (h : Lexes cs ts (ds ++ rest)) (h' : Lexes ds us rest) :
    Lexes (cs ++ ds) (ts ++ us) rest := by
  rw [Lexes, List.append_assoc, h, h', Option.map_map]
  congr 1
  funext more
  exact (List.append_assoc ts us more).symm

/-- A whole text is cut into its tokens. -/
theorem Lexes.tokens_eq (h : Lexes cs ts []) : tokens cs = some ts := by
  rw [Lexes, List.append_nil, tokens] at h
  rw [h, Option.map_some, List.append_nil]

theorem tokens_space (h : isSpace c = true) (cs : List Char) : tokens (c :: cs) = tokens cs := by
  rw [tokens, if_pos h]

theorem lexes_spaces (h : ∀ c ∈ cs, isSpace c = true) : Lexes cs [] rest := by
  induction cs with
  | nil => simp [Lexes]
  | cons c cs ih =>
    rw [Lexes, List.cons_append, tokens_space (h c List.mem_cons_self)]
    exact ih fun d hd => h d (List.mem_cons_of_mem c hd)

/-- A lexeme at the start of a text is its first token. -/
theorem tokens_lexeme (hs : isSpace c = false) (h : Reads (lexeme c cs) t rest) :
    tokens (c :: cs) = (tokens rest).map (t :: ·) := by
  obtain ⟨hlt, h⟩ := h
  rw [tokens, if_neg (by simp [hs]), h]
  show (tokens rest >>= _) = _
  cases tokens rest with
  | none => rfl
  | some more => rfl

/-- One lexeme: the character that it starts with and the others that belong to it. -/
theorem lexes_lexeme (hs : isSpace c = false) (h : Reads (lexeme c (cs ++ rest)) t rest) :
    Lexes (c :: cs) [t] rest :=
  tokens_lexeme hs h

def marks : List (Char × Token) :=
  [('[', .beginList), (']', .endList), ('\x7b', .beginRecord), ('\x7d', .endRecord), (',', .comma),
    (':', .colon)]

theorem lexes_mark (h : (c, t) ∈ marks) : Lexes [c] [t] rest := by
  simp only [marks, List.mem_cons, Prod.mk.injEq, List.not_mem_nil, or_false] at h
  rcases h with ⟨rfl, rfl⟩ | ⟨rfl, rfl⟩ | ⟨rfl, rfl⟩ | ⟨rfl, rfl⟩ | ⟨rfl, rfl⟩ | ⟨rfl, rfl⟩ <;>
    exact lexes_lexeme (by decide) ⟨Reading.lt_cons rest, rfl⟩

/-- A mark in front of other tokens. -/
theorem Lexes.cons_mark (h : Lexes cs ts rest) (hm : (c, t) ∈ marks) :
    Lexes (c :: cs) (t :: ts) rest :=
  (lexes_mark hm).append h

theorem lexes_bool (b : Bool) : Lexes (toString b).toList [.bool b] rest := by
  cases b with
  | true =>
    show Lexes ('t' :: "rue".toList) [.bool true] rest
    exact lexes_lexeme (by decide) ⟨by simp +arith, rfl⟩
  | false =>
    show Lexes ('f' :: "alse".toList) [.bool false] rest
    exact lexes_lexeme (by decide) ⟨by simp +arith, rfl⟩

/-! ## Texts without escapes -/

theorem pieces_plain (h : isPlain c = true) (cs : List Char) :
    pieces (c :: cs) = (pieces cs).map fun r =>
      (r.map (.char c :: ·)).widen (Reading.le_cons cs) := by
  simp only [isPlain, Bool.and_eq_true, bne_iff_ne, decide_eq_true_eq] at h
  obtain ⟨⟨⟨hquote, hslash⟩, hlow⟩, -⟩ := h
  rw [pieces]
  · rw [if_neg (by omega)]
    cases pieces cs with
    | none => rfl
    | some r => rfl
  · exact hquote
  · intro a b d e rest heq
    exact absurd heq hslash
  · intro e rest heq
    exact absurd heq hslash

/-- Plain characters are read one by one, up to the closing quote. -/
theorem reads_pieces (h : ∀ c ∈ cs, isPlain c = true) (rest : List Char) :
    Reads (pieces (cs ++ '\x22' :: rest)) (cs.map .char) rest := by
  induction cs with
  | nil => exact ⟨Reading.lt_cons rest, rfl⟩
  | cons c cs ih =>
    have hmore := ih fun d hd => h d (List.mem_cons_of_mem c hd)
    rw [List.cons_append, pieces_plain (h c List.mem_cons_self)]
    exact hmore.map_widen _ _

theorem characters_map_char (cs : List Char) : characters? (cs.map .char) = some cs := by
  induction cs with
  | nil => rfl
  | cons c cs ih =>
    rw [List.map_cons, characters?, ih]
    rfl

theorem lexes_text (h : ∀ c ∈ cs, isPlain c = true) :
    Lexes ('\x22' :: (cs ++ ['\x22'])) [.text (some (String.ofList cs))] rest := by
  refine lexes_lexeme (by decide) ?_
  have hread : Reads (text (cs ++ '\x22' :: rest)) (some (String.ofList cs)) rest := by
    have hmap := (reads_pieces h rest).map fun parts => (characters? parts).map String.ofList
    rwa [characters_map_char] at hmap
  rw [List.append_assoc]
  exact hread.map_widen _ _

/-! ## Whole numbers -/

/-- A character that a numeral could go on with. -/
def continuesNumeral (c : Char) : Bool :=
  c.isDigit || c == '.' || c == 'e' || c == 'E'

/-- The decimal digits of a number are a whole part, because they have no zero too many in front. -/
theorem reads_wholePart (n : Nat) (hr : EndsRun Char.isDigit rest) :
    Reads (wholePart (Nat.toDigits 10 n ++ rest)) (Nat.toDigits 10 n) rest := by
  obtain ⟨c, more, hdigits, -⟩ := Decimal.toDigits_start n
  have hall : ∀ d ∈ c :: more, d.isDigit = true := by
    intro d hd
    exact Decimal.isDigit_of_mem_toDigits (hdigits ▸ hd)
  rw [hdigits]
  by_cases hzero : c = '0'
  · subst hzero
    obtain rfl := Decimal.eq_nil_of_toDigits hdigits
    exact ⟨Reading.lt_cons rest, rfl⟩
  · have hmore : ∀ d ∈ more, d.isDigit = true := fun d hd => hall d (List.mem_cons_of_mem c hd)
    rw [List.cons_append, wholePart]
    · simp only [digits, hall c List.mem_cons_self, if_true, Text.takeWhile_run hmore hr,
        Text.dropWhile_run hmore hr]
      exact ⟨_, rfl⟩
    · intro tail heq
      exact hzero (List.cons.inj heq).1

theorem reads_fractionPart (hr : EndsRun continuesNumeral rest) :
    Reads (fractionPart rest) [] rest := by
  rw [fractionPart]
  · exact ⟨Reading.lt_cons rest, rfl⟩
  · rintro tail rfl
    cases hr '.' rfl

theorem reads_exponentPart (hr : EndsRun continuesNumeral rest) :
    Reads (exponentPart rest) none rest := by
  rw [exponentPart]
  · exact ⟨Reading.lt_cons rest, rfl⟩
  · rintro tail rfl
    cases hr 'e' rfl
  · rintro tail rfl
    cases hr 'E' rfl

theorem reads_numeral (n : Nat) (hr : EndsRun continuesNumeral rest) :
    Reads (numeral false (Nat.toDigits 10 n ++ rest))
      ⟨false, Nat.toDigits 10 n, [], none⟩ rest := by
  have hdigit : EndsRun Char.isDigit rest := by
    intro c hc
    have hrest := hr c hc
    simp only [continuesNumeral, Bool.or_eq_false_iff] at hrest
    exact hrest.1.1.1
  rw [numeral]
  refine (reads_wholePart n hdigit).bind fun hwhole => ?_
  refine (reads_fractionPart hr).bind fun hfraction => ?_
  exact (reads_exponentPart hr).bind fun hexponent => ⟨_, rfl⟩

theorem appendDigits_eq (n : Nat) (ds : List Char)
    (h : ds.foldl (fun n d => 10 * n + (d.toNat - '0'.toNat)) n < UInt64.size) :
    appendDigits n ds = (ds.foldl (fun n d => 10 * n + (d.toNat - '0'.toNat)) n, []) := by
  induction ds generalizing n with
  | nil => rfl
  | cons d ds ih =>
    rw [List.foldl_cons] at h ⊢
    -- no number on the way is larger than the last one
    have hlonger := Nat.lt_of_le_of_lt (Decimal.le_foldl_digits _ ds) h
    rw [appendDigits, if_pos hlonger, ih _ h]

theorem value_numeral (h : n < UInt64.size) :
    Numeral.value? ⟨false, Nat.toDigits 10 n, [], none⟩ = some (.whole n) := by
  have hn := Decimal.ofDigits_toDigits n
  rw [Decimal.ofDigits] at hn
  have happend : appendDigits 0 (Nat.toDigits 10 n) = (n, []) := by
    rw [appendDigits_eq 0 _ (hn.symm ▸ h), hn]
  rw [Numeral.value?, happend]
  rfl

theorem isSpace_digit (h : c.isDigit = true) : isSpace c = false := by
  rw [isSpace]
  simp only [Bool.or_eq_false_iff, beq_eq_false_iff_ne]
  refine ⟨⟨⟨?_, ?_⟩, ?_⟩, ?_⟩
  all_goals
    rintro rfl
    cases h

theorem lexeme_digit (h : c.isDigit = true) (cs : List Char) :
    lexeme c cs = (numeral false (c :: cs)).map numberToken := by
  rw [lexeme, if_pos h]
  all_goals
    rintro rfl
    cases h

/-- A number of 64 bits is one token, if no character follows that it could go on with. -/
theorem lexes_nat (h : n < UInt64.size) (hr : EndsRun continuesNumeral rest) :
    Lexes (toString n).toList [.number (some (.whole n))] rest := by
  have hread := (reads_numeral n hr).map fun numeral => Token.number numeral.value?
  rw [value_numeral h] at hread
  obtain ⟨c, more, hdigits, hc⟩ := Decimal.toDigits_start n
  rw [hdigits] at hread
  rw [Decimal.toList_toString, hdigits]
  refine lexes_lexeme (isSpace_digit hc) ?_
  rw [lexeme_digit hc]
  exact hread

end SparkTrail.Json
