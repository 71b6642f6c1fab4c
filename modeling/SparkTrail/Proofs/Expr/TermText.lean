import SparkTrail.Proofs.Expr.Lexeme
import SparkTrail.Proofs.Expr.Term

/-!
# The text of a term is clean and is cut into its tokens

The text of a term is left as it is by the filter and by trimming, and it is cut into the tokens
that were written. Lexing needs to know what stands behind a term: nothing that a name or a numeral
could go on with. Whatever is written behind a term ends it in this sense.
-/
namespace SparkTrail.Expr

open Text (EndsRun)

variable {cs rest : List Char} {c : Char}

/-- A numeral cannot go on with `rest`, nor can a name. -/
def Ends (rest : List Char) : Prop :=
  ∀ c, rest.head? = some c → isNumeral c = false ∧ isNameRest c = false

theorem ends_nil : Ends [] := by
  intro c hc
  cases hc

theorem ends_cons (h : isNumeral c = false ∧ isNameRest c = false) : Ends (c :: cs) := by
  intro d hd
  cases hd
  exact h

/-- There is nothing to trim where the first and the last character are not blank. -/
theorem trim_eq (hh : ∃ c ∈ cs.head?, Text.isBlank c = false)
    (hl : ∃ c ∈ cs.getLast?, Text.isBlank c = false) : Text.trim cs = cs := by
  obtain ⟨c, hc, hcb⟩ := hh
  obtain ⟨d, hd, hdb⟩ := hl
  have hfront : cs.dropWhile Text.isBlank = cs := by
    obtain ⟨more, rfl⟩ := List.head?_eq_some_iff.mp hc
    rw [List.dropWhile_cons, if_neg (by simp [hcb])]
  have hback : cs.reverse.dropWhile Text.isBlank = cs.reverse := by
    obtain ⟨more, rfl⟩ := List.getLast?_eq_some_iff.mp hd
    rw [List.reverse_append, List.reverse_singleton, List.singleton_append, List.dropWhile_cons,
      if_neg (by simp [hdb])]
  rw [Text.trim, hfront, hback, List.reverse_reverse]

namespace Numeral

theorem digitChar_spec : ∀ d : Fin 10, (Nat.digitChar d.val).isDigit = true ∧
    (Nat.digitChar d.val).toNat - '0'.toNat = d.val := by
  decide

theorem isDigit_digits (ds : List (Fin 10)) : ∀ c ∈ digits ds, c.isDigit = true := by
  intro c hc
  obtain ⟨d, -, rfl⟩ := List.mem_map.mp hc
  exact (digitChar_spec d).1

theorem digits_append (ds es : List (Fin 10)) : digits (ds ++ es) = digits ds ++ digits es :=
  List.map_append

theorem ofDigits_digits (ds : List (Fin 10)) : Decimal.ofDigits (digits ds) = number ds := by
  rw [Decimal.ofDigits, digits, List.foldl_map, number]
  congr 1
  funext n d
  rw [(digitChar_spec d).2]

theorem isNumeral_text (n : Numeral) : ∀ c ∈ n.text, isNumeral c = true := by
  intro c hc
  have hd : ∀ ds, c ∈ digits ds → isNumeral c = true := by
    intro ds h
    rw [isNumeral, isDigit_digits ds c h, Bool.true_or]
  rw [text] at hc
  split at hc
  · exact hd _ hc
  · rcases List.mem_append.mp hc with hc | hc
    · exact hd _ hc
    · rcases List.mem_cons.mp hc with rfl | hc
      · decide
      · exact hd _ hc

theorem text_eq_cons (n : Numeral) : ∃ more, n.text = Nat.digitChar n.first.val :: more := by
  rw [text]
  split
  · exact ⟨_, rfl⟩
  · exact ⟨_, rfl⟩

/-- The digits before the dot are the longest run of digits. -/
theorem read?_text (n : Numeral) : Decimal.read? n.text = some n.value := by
  have hw := isDigit_digits (n.first :: n.more)
  rw [text, value]
  split
  · have htake : (digits (n.first :: n.more) ++ []).takeWhile Char.isDigit
        = digits (n.first :: n.more) := Text.takeWhile_run hw (by intro c hc; cases hc)
    have hdrop : (digits (n.first :: n.more) ++ []).dropWhile Char.isDigit = [] :=
      List.dropWhile_append_of_pos hw
    rw [List.append_nil] at htake hdrop
    rw [Decimal.read?, htake, hdrop, ← ofDigits_digits]
    rfl
  · rename_i ds _
    have htake : (digits (n.first :: n.more) ++ '.' :: digits ds).takeWhile Char.isDigit
        = digits (n.first :: n.more) := Text.takeWhile_run hw (by intro c hc; cases hc; rfl)
    have hdrop : (digits (n.first :: n.more) ++ '.' :: digits ds).dropWhile Char.isDigit
        = '.' :: digits ds := by
      rw [List.dropWhile_append_of_pos hw]
      rfl
    have hall : (digits ds).all Char.isDigit = true := List.all_eq_true.mpr (isDigit_digits ds)
    have hlength : (digits ds).length = ds.length := List.length_map _
    simp only [Decimal.read?, htake, hdrop, hall, hlength, ← digits_append, ofDigits_digits]
    rfl

theorem lexes_text (n : Numeral) (h : Ends rest) : Lexes n.text [.number n.value] rest :=
  (IsLexeme.number n.isNumeral_text (fun c hc => (h c hc).1) n.read?_text).lexes

theorem not_isBlank_text (n : Numeral) : ∀ c ∈ n.text, Text.isBlank c = false :=
  fun c hc => not_isBlank_of_isLexical (isLexical_of_isNumeral (n.isNumeral_text c hc))

end Numeral

section Builtin

variable {name : String} {b : Builtin}

theorem constant_mem (c : Constant) : (c.name, .constant c) ∈ Builtin.table := by
  cases c <;> decide

theorem function_mem (f : Function) : (f.name, .function f) ∈ Builtin.table := by
  cases f with
  | unary f => cases f <;> decide
  | binary f => cases f <;> decide

/-- No name stands for two things. -/
theorem lookup?_of_mem (h : (name, b) ∈ Builtin.table) : Builtin.lookup? name = some b := by
  have hall : ∀ entry ∈ Builtin.table, Builtin.lookup? entry.1 = some entry.2 := by decide
  exact hall _ h

theorem mem_names (h : (name, b) ∈ Builtin.table) : name.toList ∈ names :=
  List.mem_map_of_mem h

/-- The known names have the characters of names, so the lexer takes each as a whole. -/
theorem name_eq_cons (h : cs ∈ names) :
    ∃ c more, cs = c :: more ∧ isNameStart c = true ∧ ∀ d ∈ more, isNameRest d = true := by
  have hall : ∀ cs ∈ names, cs.all isNameRest = true ∧ cs.head?.any isNameStart = true := by decide
  obtain ⟨hrest, hstart⟩ := hall cs h
  cases cs with
  | nil => cases hstart
  | cons c more =>
    refine ⟨c, more, rfl, hstart, ?_⟩
    intro d hd
    exact List.all_eq_true.mp hrest d (List.mem_cons_of_mem _ hd)

theorem lexes_builtin (h : (name, b) ∈ Builtin.table) (hr : EndsRun isNameRest rest) :
    Lexes name.toList [.name name] rest := by
  obtain ⟨c, more, hcs, hc, hmore⟩ := name_eq_cons (mem_names h)
  have hname : name = String.ofList (c :: more) := by rw [← hcs, String.ofList_toList]
  rw [hcs, hname]
  exact (IsLexeme.name hc hmore hr).lexes

end Builtin

section Parenthesised

variable {ks : List TokenKind} {k : TokenKind}

theorem lexes_mark (h : (c, k) ∈ marks) : Lexes [c] [k] rest :=
  (IsLexeme.mark h).lexes

theorem isClean_parenthesised (h : IsClean cs) : IsClean (parenthesised cs) :=
  IsClean.char (by decide) (h.append (isClean_of_allowed (by decide)))

theorem lexes_parenthesised (h : Lexes cs ks (')' :: rest)) :
    Lexes (parenthesised cs) (.opening :: ks ++ [.closing]) rest :=
  (lexes_mark (by simp [marks])).append (h.append (lexes_mark (by simp [marks])))

theorem isClean_symbol (s : Step) : IsClean s.symbol.toList := by
  cases s with
  | increment => exact .char (c := '+') (by decide) (.char (c := '+') (by decide) .nil)
  | decrement => exact .char (c := '-') (by decide) (.char (c := '-') (by decide) .nil)

theorem lexes_step (s : Step) : Lexes s.symbol.toList [.step s] rest := by
  have htext : s.symbol.toList = [s.sign, s.sign] := by cases s <;> rfl
  rw [htext]
  exact (IsLexeme.step s).lexes

theorem lexes_x (hr : EndsRun isNameRest rest) : Lexes ['x'] [.name "x"] rest := by
  have hx : IsLexeme (.name (String.ofList ['x'])) ['x'] rest :=
    .name (by decide) (by intro c hc; cases hc) hr
  exact hx.lexes

end Parenthesised

def Operator.kind : Operator → TokenKind
  | .add => .plus
  | .sub => .minus
  | .mul => .star
  | .div => .slash

theorem lexes_operator (op : Operator) :
    Lexes (' ' :: op.symbol.toList) [op.kind] (' ' :: rest) := by
  refine (lexes_blank (by decide)).append ?_
  cases op with
  | add => exact (IsLexeme.sign .increment (by simp [Step.sign])).lexes
  | sub => exact (IsLexeme.sign .decrement (by simp [Step.sign])).lexes
  | mul => exact lexes_mark (c := '*') (by simp [marks, Operator.kind])
  | div => exact lexes_mark (c := '/') (by simp [marks, Operator.kind])

namespace Term

mutual

def kinds : Term → List TokenKind
  | .number n => [.number n.value]
  | .var => [.name "x"]
  | .constant c => [.name c.name]
  | .negate t => .opening :: (.minus :: t.kinds) ++ [.closing]
  | .binary op a b => .opening :: (a.kinds ++ op.kind :: b.kinds) ++ [.closing]
  | .step s .before => .opening :: [.step s, .name "x"] ++ [.closing]
  | .step s .after => .opening :: [.name "x", .step s] ++ [.closing]
  | .call f args => .name f.name :: .opening :: listKinds args ++ [.closing]
  | .sequence first more => .opening :: (first.kinds ++ moreKinds more) ++ [.closing]

def listKinds : List Term → List TokenKind
  | [] => []
  | t :: ts => t.kinds ++ moreKinds ts

def moreKinds : List Term → List TokenKind
  | [] => []
  | t :: ts => .comma :: t.kinds ++ moreKinds ts

end

/-- A term starts with neither a blank nor a sign, so its sign is not fused with one before it. -/
theorem head_text (t : Term) : ∃ c ∈ t.text.head?, Text.isBlank c = false ∧ c ≠ '-' := by
  cases t with
  | number n =>
    obtain ⟨more, hmore⟩ := n.text_eq_cons
    have hn : isNumeral (Nat.digitChar n.first.val) = true :=
      n.isNumeral_text _ (hmore ▸ List.mem_cons_self)
    have hb := n.not_isBlank_text _ (hmore ▸ List.mem_cons_self)
    refine ⟨Nat.digitChar n.first.val, by rw [text, hmore]; rfl, hb, ?_⟩
    intro hc
    rw [hc] at hn
    exact absurd hn (by decide)
  | var => exact ⟨'x', rfl, by decide⟩
  | constant c => cases c <;> exact ⟨_, rfl, by decide⟩
  | negate t => exact ⟨'(', rfl, by decide⟩
  | binary op a b => exact ⟨'(', rfl, by decide⟩
  | step s place => cases place <;> exact ⟨'(', rfl, by decide⟩
  | call f args =>
    have hname := mem_names (function_mem f)
    obtain ⟨c, more, hcs, hc, -⟩ := name_eq_cons hname
    have hb := not_isBlank_of_name hname c (hcs ▸ List.mem_cons_self)
    refine ⟨c, by rw [text, hcs]; rfl, hb, ?_⟩
    rintro rfl
    exact absurd hc (by decide)
  | sequence first more => exact ⟨'(', rfl, by decide⟩

theorem last_parenthesised (a cs : List Char) :
    ∃ c ∈ (a ++ parenthesised cs).getLast?, Text.isBlank c = false := by
  refine ⟨')', ?_, by decide⟩
  rw [parenthesised, ← List.append_assoc, List.getLast?_concat]
  rfl

/-- No term ends with a blank, so trimming takes nothing off it. -/
theorem last_text (t : Term) : ∃ c ∈ t.text.getLast?, Text.isBlank c = false := by
  cases t with
  | number n =>
    obtain ⟨more, hmore⟩ := n.text_eq_cons
    refine ⟨_, List.getLast?_eq_some_getLast (by simp [text, hmore]), ?_⟩
    exact n.not_isBlank_text _ (List.getLast_mem _)
  | var => exact ⟨'x', rfl, by decide⟩
  | constant c => cases c <;> exact ⟨_, rfl, by decide⟩
  | negate t => exact last_parenthesised [] _
  | binary op a b => exact last_parenthesised [] _
  | step s place => cases place <;> exact last_parenthesised [] _
  | call f args => exact last_parenthesised _ _
  | sequence first more => exact last_parenthesised [] _

theorem trim_text (t : Term) : Text.trim t.text = t.text := by
  obtain ⟨c, hc, hb, -⟩ := t.head_text
  exact trim_eq ⟨c, hc, hb⟩ t.last_text

theorem ends_moreText (ts : List Term) : Ends (moreText ts ++ ')' :: rest) := by
  cases ts with
  | nil => exact ends_cons (by decide)
  | cons t ts => exact ends_cons (by decide)

mutual

/-- The filter has nothing to take out of a term. -/
theorem isClean_text : ∀ t : Term, IsClean t.text
  | .number n => by
    refine isClean_of_allowed (List.all_eq_true.mpr fun c hc => ?_)
    have hn := n.isNumeral_text c hc
    rw [isNumeral, Bool.or_eq_true, beq_iff_eq] at hn
    rcases hn with hd | rfl
    · rw [isAllowed, hd, Bool.true_or]
    · decide
  | .var => isClean_of_allowed (by decide)
  | .constant c => isClean_name (mem_names (constant_mem c))
  | .negate t => isClean_parenthesised (.char (by decide) (isClean_text t))
  | .binary op a b => by
    have hop : IsClean (' ' :: op.symbol.toList) :=
      isClean_of_allowed (by cases op <;> decide)
    exact isClean_parenthesised
      ((isClean_text a).append (hop.append (.char (by decide) (isClean_text b))))
  | .step s .before =>
    isClean_parenthesised ((isClean_symbol s).append (.char (by decide) .nil))
  | .step s .after => isClean_parenthesised (.char (by decide) (isClean_symbol s))
  | .call f args =>
    .name (mem_names (function_mem f)) (isClean_parenthesised (isClean_listText args))
  | .sequence first more =>
    isClean_parenthesised ((isClean_text first).append (isClean_moreText more))

theorem isClean_listText : ∀ ts : List Term, IsClean (listText ts)
  | [] => .nil
  | t :: ts => (isClean_text t).append (isClean_moreText ts)

theorem isClean_moreText : ∀ ts : List Term, IsClean (moreText ts)
  | [] => .nil
  | t :: ts =>
    .char (by decide) (.char (by decide) ((isClean_text t).append (isClean_moreText ts)))

end

mutual

/-- A term is cut into its tokens before anything that neither a number nor a name could go on
with. -/
theorem lexes_text : ∀ (t : Term) {rest : List Char}, Ends rest → Lexes t.text t.kinds rest
  | .number n, _, h => n.lexes_text h
  | .var, _, h => lexes_x fun c hc => (h c hc).2
  | .constant c, _, h => lexes_builtin (constant_mem c) fun d hd => (h d hd).2
  | .negate t, rest, _ => by
    -- a second sign would make the first one a step
    obtain ⟨c, hc, -, hne⟩ := t.head_text
    have hsign : (t.text ++ ')' :: rest).head? ≠ some '-' := by
      rw [List.head?_append, hc]
      exact fun h => hne (Option.some.inj h)
    have hends : Ends (')' :: rest) := ends_cons (by decide)
    have ht := lexes_text t hends
    have hminus : Lexes ['-'] [.minus] (t.text ++ ')' :: rest) :=
      (IsLexeme.sign .decrement hsign).lexes
    exact lexes_parenthesised (hminus.append ht)
  | .binary op a b, rest, _ => by
    have hends : Ends (')' :: rest) := ends_cons (by decide)
    have hb := lexes_text b hends
    have hop := (lexes_operator op).append ((lexes_blank (by decide)).append hb)
    exact lexes_parenthesised ((lexes_text a (ends_cons (by decide))).append hop)
  | .step s .before, _, _ =>
    lexes_parenthesised ((lexes_step s).append (lexes_x (by intro c hc; cases hc; decide)))
  | .step s .after, _, _ =>
    lexes_parenthesised ((lexes_x (by cases s <;> intro c hc <;> cases hc <;> decide)).append
      (lexes_step s))
  | .call f args, _, _ =>
    (lexes_builtin (function_mem f) (by intro c hc; cases hc; decide)).append
      (lexes_parenthesised (lexes_listText args))
  | .sequence first more, _, _ =>
    lexes_parenthesised ((lexes_text first (ends_moreText more)).append (lexes_moreText more))

theorem lexes_listText : ∀ (ts : List Term) {rest : List Char},
    Lexes (listText ts) (listKinds ts) (')' :: rest)
  | [], _ => .nil
  | t :: ts, _ => (lexes_text t (ends_moreText ts)).append (lexes_moreText ts)

theorem lexes_moreText : ∀ (ts : List Term) {rest : List Char},
    Lexes (moreText ts) (moreKinds ts) (')' :: rest)
  | [], _ => .nil
  | t :: ts, rest => by
    have hts : Lexes (moreText ts) (moreKinds ts) (')' :: rest) := lexes_moreText ts
    have ht := (lexes_text t (ends_moreText ts)).append hts
    exact (lexes_mark (c := ',') (by simp [marks])).append ((lexes_blank (by decide)).append ht)

end

end Term

end SparkTrail.Expr
