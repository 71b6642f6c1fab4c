import SparkTrail.Proofs.Decimal.Digits
import SparkTrail.Proofs.Settings.Document
import SparkTrail.Proofs.Text.Reading

/-!
# Keys and values of TOML

How a name without quotes is read as a key, and a leaf as a value up to the end of its line. A
number is not taken for a date or a time, since none of its characters is a dash or a colon.
-/
namespace SparkTrail.Toml

open Text (Reading Reads EndsRun isPlain)

variable {cs rest after : List Char} {c : Char} {n : Nat} {kind : Char → Bool} {d : Data}

theorem reads_run (hne : cs ≠ []) (h : ∀ c ∈ cs, kind c = true) (hr : EndsRun kind rest) :
    Reads (run kind (cs ++ rest)) cs rest := by
  obtain ⟨c, more, rfl⟩ := List.exists_cons_of_ne_nil hne
  have hmore : ∀ d ∈ more, kind d = true := fun d hd => h d (List.mem_cons_of_mem c hd)
  rw [List.cons_append, run]
  simp only [h c List.mem_cons_self, if_true, Text.takeWhile_run hmore hr,
    Text.dropWhile_run hmore hr]
  exact ⟨_, rfl⟩

/-! ## Keys -/

theorem reads_key (w : Word) (hr : EndsRun isKeyChar rest) :
    Reads (key (w.chars ++ rest)) (String.ofList w.chars) rest := by
  have hread := (reads_run w.ne_nil w.isKeyChar hr).map String.ofList
  obtain ⟨c, more, hw, hc⟩ := w.start
  rw [hw, List.cons_append] at hread ⊢
  rw [key]
  · exact hread
  all_goals
    intro tail heq
    rw [(List.cons.inj heq).1] at hc
    cases hc

/-- A key alone, with the blanks behind it. -/
theorem reads_path (w : Word) (hr : EndsRun isKeyChar rest)
    (hskip : rest.dropWhile isBlank = c :: after) (hc : c ≠ '.') :
    Reads (path (w.chars ++ rest)) [String.ofList w.chars] (c :: after) := by
  have hkeys : Reads (keys (w.chars ++ rest)) [String.ofList w.chars] (c :: after) := by
    rw [keys]
    refine (reads_key w hr).bind fun hlt => ?_
    dsimp only [skip]
    split
    · rename_i tail heq
      exact absurd (List.cons.inj (hskip.symm.trans heq)).1 hc
    · rw [← hskip]
      exact ⟨_, rfl⟩
  rw [path]
  exact hkeys.bind fun hlt => ⟨_, rfl⟩

/-! ## Whole numbers -/

theorem grouped_digits (hne : cs ≠ []) (h : ∀ c ∈ cs, c.isDigit = true) :
    grouped? Char.isDigit cs = some cs := by
  induction cs with
  | nil => exact absurd rfl hne
  | cons c cs ih =>
    have hc := h c List.mem_cons_self
    cases cs with
    | nil => rw [grouped?, if_pos hc]
    | cons d ds =>
      have hd := h d (List.mem_cons_of_mem c List.mem_cons_self)
      have hmore := ih (List.cons_ne_nil d ds) fun e he => h e (List.mem_cons_of_mem c he)
      rw [grouped?, if_pos hc, hmore]
      · rfl
      · intro heq
        cases heq
      · rintro e tail heq
        rw [(List.cons.inj heq).1] at hd
        cases hd

theorem decimalDigits_toDigits (n : Nat) :
    decimalDigits? (Nat.toDigits 10 n) = some (Nat.toDigits 10 n) := by
  have hgrouped := grouped_digits Nat.toDigits_ne_nil
    fun c hc => Decimal.isDigit_of_mem_toDigits (n := n) hc
  rw [decimalDigits?, hgrouped]
  split
  · rename_i heq
    exact heq.symm
  · rename_i tail hne heq
    exact absurd (Decimal.eq_nil_of_toDigits (Option.some.inj heq)) hne
  · rfl

theorem isDate_digits (h : ∀ c ∈ cs, c.isDigit = true) (more : List Char → Bool) :
    isDate more cs = false := by
  rw [isDate.eq_def]
  split
  · cases h '-' (by simp)
  · rfl

theorem isTime_digits (h : ∀ c ∈ cs, c.isDigit = true) (more : List Char → Bool) :
    isTime more cs = false := by
  rw [isTime.eq_def]
  split
  · cases h ':' (by simp)
  · rfl

/-- The digits of a number of 64 bits are read as that number, also beyond the largest one with a
sign. -/
theorem integer_toDigits (h : n < UInt64.size) :
    integer? (Nat.toDigits 10 n) = some (.number (some (.whole n))) := by
  have hall : ∀ c ∈ Nat.toDigits 10 n, c.isDigit = true := fun c hc =>
    Decimal.isDigit_of_mem_toDigits hc
  have hunsigned : unsigned (Nat.toDigits 10 n) = Nat.toDigits 10 n := by
    rw [unsigned.eq_def]
    split
    · rename_i heq
      cases hall '+' (heq ▸ List.mem_cons_self)
    · rename_i heq
      cases hall '-' (heq ▸ List.mem_cons_self)
    · rfl
  have hsign : (Nat.toDigits 10 n).head? ≠ some '-' := by
    intro hhead
    cases hall '-' (List.mem_of_mem_head? hhead)
  have hwhole : whole? (n : Int) = some (.whole n) := by
    have hsize : UInt64.size < 340282366920938463463374607431768211456 := by decide
    have hlow : -Int.pow 2 127 = -170141183460469231731687303715884105728 := rfl
    have hhigh : Int.pow 2 128 = 340282366920938463463374607431768211456 := rfl
    rw [whole?, if_pos (by omega)]
  rw [integer?]
  · rw [hunsigned, decimalDigits_toDigits]
    show some (Data.number (whole? (if _ then _ else _))) = _
    rw [if_neg hsign, Decimal.ofDigits_toDigits, hwhole]
  all_goals
    -- a zero in front of a letter, which is no digit
    intro tail heq
    have hletter := hall _ (heq ▸ List.mem_cons_of_mem _ List.mem_cons_self)
    cases hletter

theorem bare_toDigits (h : n < UInt64.size) :
    bare? (Nat.toDigits 10 n) = some (.number (some (.whole n))) := by
  have hall : ∀ c ∈ Nat.toDigits 10 n, c.isDigit = true := fun c hc =>
    Decimal.isDigit_of_mem_toDigits hc
  have hword : ∀ word : List Char, 't' ∈ word ∨ 'f' ∈ word → Nat.toDigits 10 n ≠ word := by
    rintro word (ht | hf) rfl
    · cases hall 't' ht
    · cases hall 'f' hf
  rw [bare?, if_neg (hword _ (by decide)), if_neg (hword _ (by decide)), isDate_digits hall,
    isTime_digits hall, integer_toDigits h]
  rfl

/-! ## Leaves -/

theorem isBareChar_of_isDigit (h : c.isDigit = true) : isBareChar c = true := by
  simp [isBareChar, Char.isAlphanum, h]

/-- A value without quotes, on a line of its own. -/
theorem reads_bare (hne : cs ≠ []) (h : ∀ c ∈ cs, isBareChar c = true) (hd : bare? cs = some d)
    (room : Nat) (rest : List Char) :
    Reads (value room (cs ++ '\n' :: rest)) d ('\n' :: rest) := by
  have hbare : Reads (bare (cs ++ '\n' :: rest)) d ('\n' :: rest) := by
    rw [bare]
    refine (reads_run hne h (Text.endsRun_cons (by decide) rest)).bind fun hlt => ?_
    dsimp only
    rw [hd]
    exact ⟨_, rfl⟩
  obtain ⟨c, more, rfl⟩ := List.exists_cons_of_ne_nil hne
  have hc := h c List.mem_cons_self
  rw [List.cons_append] at hbare ⊢
  rw [value]
  · exact hbare
  all_goals
    intro tail heq
    rw [(List.cons.inj heq).1] at hc
    cases hc

theorem isControl_of_isPlain (h : isPlain c = true) : isControl c = false := by
  simp only [isPlain, Bool.and_eq_true, bne_iff_ne, decide_eq_true_eq] at h
  obtain ⟨⟨-, hlow⟩, hdelete⟩ := h
  have hne : c.toNat ≠ 0x7f := fun heq => hdelete (Char.toNat_inj.mp heq)
  simp only [isControl, Bool.or_eq_false_iff, Bool.and_eq_false_iff, decide_eq_false_iff_not,
    beq_eq_false_iff_ne]
  exact ⟨.inl (Nat.not_lt.mpr hlow), hne⟩

theorem quotedText_plain (h : isPlain c = true) (cs : List Char) :
    quotedText (c :: cs) = (quotedText cs).map fun r =>
      (r.map (c :: ·)).widen (Reading.le_cons cs) := by
  have hcontrol := isControl_of_isPlain h
  simp only [isPlain, Bool.and_eq_true, bne_iff_ne] at h
  obtain ⟨⟨⟨hquote, hslash⟩, -⟩, -⟩ := h
  rw [quotedText]
  · rw [if_neg (by simp [hcontrol])]
    cases quotedText cs with
    | none => rfl
    | some r => rfl
  · exact hquote
  · exact hslash

/-- Plain characters are read up to the closing quote. -/
theorem reads_quotedText (h : ∀ c ∈ cs, isPlain c = true) (rest : List Char) :
    Reads (quotedText (cs ++ '\x22' :: rest)) cs rest := by
  induction cs with
  | nil =>
    rw [List.nil_append, quotedText]
    exact ⟨Reading.lt_cons rest, rfl⟩
  | cons c cs ih =>
    have hmore := ih fun d hd => h d (List.mem_cons_of_mem c hd)
    rw [List.cons_append, quotedText_plain (h c List.mem_cons_self)]
    exact hmore.map_widen _ _

theorem reads_word (w : Word) (room : Nat) (rest : List Char) :
    Reads (value room ('\x22' :: (w.chars ++ '\x22' :: rest)))
      (.text (some (String.ofList w.chars))) rest := by
  have hquoted := reads_quotedText w.isPlain rest
  obtain ⟨c, more, hw, hc⟩ := w.start
  have htext : Reads (text ('\x22' :: (w.chars ++ '\x22' :: rest)))
      (String.ofList w.chars) rest := by
    rw [text]
    · exact hquoted.map_widen _ _
    · -- three quotes would be the start of a text on several lines
      intro tail heq
      rw [hw, List.cons_append] at heq
      rw [(List.cons.inj heq).1] at hc
      cases hc
  rw [value]
  exact htext.map (Data.text ∘ some)

/-- A leaf on a line of its own. -/
theorem reads_leaf (l : Leaf) (room : Nat) (rest : List Char) :
    Reads (value room (l.text ++ '\n' :: rest)) l.data ('\n' :: rest) := by
  cases l with
  | bool b =>
    cases b with
    | true => exact reads_bare (by decide) (List.all_eq_true.mp (by decide)) rfl room rest
    | false => exact reads_bare (by decide) (List.all_eq_true.mp (by decide)) rfl room rest
  | nat n fits =>
    rw [Leaf.text, Decimal.toList_toString]
    refine reads_bare Nat.toDigits_ne_nil (fun c hc => ?_) (bare_toDigits fits) room rest
    exact isBareChar_of_isDigit (Decimal.isDigit_of_mem_toDigits hc)
  | word w =>
    rw [Leaf.text, List.cons_append, List.append_assoc]
    exact reads_word w room ('\n' :: rest)

end SparkTrail.Toml
