import SparkTrail.Proofs.Toml.Values

/-!
# Lines of TOML

A printed document is one line after another, each with one statement: the header of a table, behind
an empty line, or a leaf under a key. Whatever the lines, the reader finds their statements.
-/
namespace SparkTrail.Toml

open Text (Reading Reads EndsRun)

/-- A line of a printed document. -/
inductive Line where
  | header (name : Word)
  | field (name : Word) (l : Leaf)

def Line.text : Line → List Char
  | .header name => '\n' :: '[' :: (name.chars ++ [']', '\n'])
  | .field name l => name.chars ++ ' ' :: '=' :: ' ' :: (l.text ++ ['\n'])

def Line.statement : Line → Statement
  | .header name => .table [String.ofList name.chars]
  | .field name l => .assign [String.ofList name.chars] l.data

def leafLine : Word × Document → Option Line
  | (name, .leaf l) => some (.field name l)
  | _ => none

def tableLines : Word × Document → List Line
  | (name, .record fields) => .header name :: fields.filterMap leafLine
  | _ => []

/-- A record as lines: its leaves, then a table for each record in it. -/
def lines (fields : List (Word × Document)) : List Line :=
  fields.filterMap leafLine ++ fields.flatMap tableLines

variable {cs rest : List Char} {c : Char} {st : Statement}

/-- The statements of a text that has been taken to its first statement. -/
def statementsFrom (cs : List Char) : Option (List Statement) :=
  if cs.isEmpty then return []
  else do
    let first ← statement cs
    let after ← lineEnd first.rest
    let more ← statements after.rest
    return first.value :: more

theorem statements_eq (cs : List Char) : statements cs = statementsFrom (gap cs).rest := by
  rw [statements]
  rfl

theorem gap_newline (cs : List Char) : (gap ('\n' :: cs)).rest = (gap cs).rest := by
  rw [gap]
  rfl

/-- What a statement starts with: no space, no comment and no end of a line. -/
def isStart (c : Char) : Bool :=
  c == '[' || isKeyChar c

theorem isBlank_of_isStart (h : isStart c = true) : isBlank c = false := by
  simp only [isBlank, Bool.or_eq_false_iff, beq_eq_false_iff_ne]
  constructor
  all_goals
    rintro rfl
    cases h

theorem gap_start (h : isStart c = true) (cs : List Char) : (gap (c :: cs)).rest = c :: cs := by
  rw [gap]
  · rw [if_neg (by simp [isBlank_of_isStart h])]
  all_goals
    intros
    subst c
    cases h

theorem statements_newline (cs : List Char) : statements ('\n' :: cs) = statements cs := by
  rw [statements_eq, gap_newline, ← statements_eq]

/-- A statement and the end of its line. -/
theorem statements_line (hc : isStart c = true)
    (h : Reads (statement (c :: cs)) st ('\n' :: rest)) :
    statements (c :: cs) = (statements rest).map (st :: ·) := by
  obtain ⟨hlt, h⟩ := h
  rw [statements_eq, gap_start hc, statementsFrom, h]
  show (statements rest >>= _) = _
  cases statements rest with
  | none => rfl
  | some more => rfl

theorem dropWhile_blank (h : isBlank c = false) (cs : List Char) :
    (c :: cs).dropWhile isBlank = c :: cs := by
  rw [List.dropWhile_cons, if_neg (by simp [h])]

theorem leaf_start (l : Leaf) : ∃ c more, l.text = c :: more ∧ isBlank c = false := by
  cases l with
  | bool b => cases b <;> exact ⟨_, _, rfl, by decide⟩
  | nat n fits =>
    obtain ⟨c, more, hdigits, hc⟩ := Decimal.toDigits_start n
    refine ⟨c, more, (Decimal.toList_toString n).trans hdigits, isBlank_of_isStart ?_⟩
    simp [isStart, isKeyChar, Char.isAlphanum, hc]
  | word w => exact ⟨_, _, rfl, by decide⟩

theorem reads_header (w : Word) (rest : List Char) :
    Reads (statement ('[' :: (w.chars ++ ']' :: rest))) (.table [String.ofList w.chars]) rest := by
  obtain ⟨c, more, hw, hc⟩ := w.start
  have hskip : (w.chars ++ ']' :: rest).dropWhile isBlank = w.chars ++ ']' :: rest := by
    rw [hw]
    exact dropWhile_blank (isBlank_of_isStart (by simp [isStart, hc])) _
  have hpath : Reads (path ((w.chars ++ ']' :: rest).dropWhile isBlank)) [String.ofList w.chars]
      (']' :: rest) := by
    rw [hskip]
    exact reads_path w (Text.endsRun_cons (by decide) rest) rfl (by decide)
  rw [statement]
  · exact hpath.bind fun hlt => ⟨_, rfl⟩
  · -- two brackets would be the header of one more table in a list
    intro tail heq
    rw [hw, List.cons_append] at heq
    rw [(List.cons.inj heq).1] at hc
    cases hc

theorem reads_field (w : Word) (l : Leaf) (rest : List Char) :
    Reads (statement (w.chars ++ ' ' :: '=' :: ' ' :: (l.text ++ '\n' :: rest)))
      (.assign [String.ofList w.chars] l.data) ('\n' :: rest) := by
  have hpath : Reads (path (w.chars ++ ' ' :: '=' :: ' ' :: (l.text ++ '\n' :: rest)))
      [String.ofList w.chars] ('=' :: ' ' :: (l.text ++ '\n' :: rest)) :=
    reads_path w (Text.endsRun_cons (by decide) _) rfl (by decide)
  have hvalue : Reads (value maxDepth ((' ' :: (l.text ++ '\n' :: rest)).dropWhile isBlank)) l.data
      ('\n' :: rest) := by
    have hskip : (' ' :: (l.text ++ '\n' :: rest)).dropWhile isBlank = l.text ++ '\n' :: rest := by
      obtain ⟨c, more, hl, hc⟩ := leaf_start l
      rw [hl]
      exact dropWhile_blank hc _
    rw [hskip]
    exact reads_leaf l maxDepth rest
  obtain ⟨c, more, hw, hc⟩ := w.start
  rw [hw, List.cons_append] at hpath ⊢
  rw [statement]
  · exact hpath.bind fun hlt => hvalue.bind fun hlt => ⟨_, rfl⟩
  all_goals
    intro tail heq
    rw [(List.cons.inj heq).1] at hc
    cases hc

/-! ## The whole text -/

/-- A printed line is one statement in front of those behind it. -/
theorem statements_cons (l : Line) (rest : List Char) :
    statements (l.text ++ rest) = (statements rest).map (l.statement :: ·) := by
  cases l with
  | header w =>
    have hread := reads_header w ('\n' :: rest)
    rw [Line.text, List.cons_append, statements_newline, List.cons_append, List.append_assoc]
    exact statements_line (by decide) hread
  | field w l =>
    have hread : Reads _ (Line.field w l).statement _ := reads_field w l rest
    obtain ⟨c, more, hw, hc⟩ := w.start
    simp only [Line.text, List.append_assoc, List.cons_append, List.nil_append]
    rw [hw, List.cons_append] at hread ⊢
    exact statements_line (by simp [isStart, hc]) hread

/-- The reader finds the statements of the lines. -/
theorem statements_lines (ls : List Line) :
    statements (ls.flatMap Line.text) = some (ls.map Line.statement) := by
  induction ls with
  | nil =>
    rw [List.flatMap_nil, statements_eq, gap]
    rfl
  | cons l ls ih => rw [List.flatMap_cons, statements_cons, ih, List.map_cons, Option.map_some]

/-- What a text without a byte order mark says, given its statements and what comes of them. -/
theorem read_of_statements {text : String} {sts : List Statement} {p : Progress}
    (hmark : text.toList.head? ≠ some '\ufeff') (hs : statements text.toList = some sts)
    (hp : sts.foldlM Progress.step ⟨[], []⟩ = some p) :
    read? text = some (.record (toFields p.root)) := by
  have hbody : read? text = (do
      let all ← (← statements text.toList).foldlM Progress.step ⟨[], []⟩
      return .record (toFields all.root)) := by
    rw [read?]
    split
    · rename_i heq
      rw [heq] at hmark
      exact absurd rfl hmark
    · rfl
  rw [hbody, hs]
  show (sts.foldlM Progress.step ⟨[], []⟩ >>= _) = _
  rw [hp]
  rfl

end SparkTrail.Toml
