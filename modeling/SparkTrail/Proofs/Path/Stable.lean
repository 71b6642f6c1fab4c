import Mathlib.Data.List.Induction
import SparkTrail.Proofs.Expr.Failures
import SparkTrail.Proofs.Expr.Filter
import SparkTrail.Proofs.Expr.Pieces
import SparkTrail.Proofs.Path.Compile
import SparkTrail.Proofs.Text.Trim

/-!
# Compiling what is left of a text

A text is compiled by way of what the filter and trimming leave of it, and these leave their own
result alone. So the source of a path stands for that path; and since the filter keeps nothing that
cannot stand in an expression, no path is refused for a single character.
-/
namespace SparkTrail

open SparkTrail.Expr

namespace Expr

variable {cs : List Char} {c : Char} {err : Error} {text : List Char}

/-- A blank at the end of a clean text stands for itself, because no name ends with one. -/
theorem IsClean.of_concat_blank (h : IsClean cs) (hb : Text.isBlank c = true) :
    ∀ front, cs = front ++ [c] → IsClean front := by
  induction h with
  | nil =>
    intro front heq
    simp at heq
  | char hd _ ih =>
    intro front heq
    rcases List.cons_eq_append_iff.mp heq with ⟨rfl, -⟩ | ⟨front', rfl, hrest⟩
    · exact .nil
    · exact .char hd (ih front' hrest)
  | name hn _ ih =>
    intro front heq
    rcases List.append_eq_append_iff.mp heq with ⟨front', rfl, hrest⟩ | ⟨back, hname, hback⟩
    · exact .name hn (ih front' hrest)
    · rcases List.singleton_eq_append_iff.mp hback with ⟨rfl, -⟩ | ⟨rfl, -⟩
      · rw [List.append_nil] at hname
        exact hname ▸ isClean_name hn
      · rw [not_isBlank_of_name hn c (hname ▸ List.mem_append_right _ List.mem_cons_self)] at hb
        cases hb

/-- A blank at the start of a clean text stands for itself, because no name starts with one. -/
theorem IsClean.dropWhile_blank (h : IsClean cs) : IsClean (cs.dropWhile Text.isBlank) := by
  induction h with
  | nil => exact .nil
  | @char c cs hc h ih =>
    rw [List.dropWhile_cons]
    split
    · exact ih
    · exact .char hc h
  | @name name cs hn h _ =>
    obtain ⟨c, more, hname, -⟩ := name_start hn
    have hc := not_isBlank_of_name hn c (hname ▸ List.mem_cons_self)
    have hcons : name ++ cs = c :: (more ++ cs) := by rw [hname, List.cons_append]
    have hkept : (name ++ cs).dropWhile Text.isBlank = name ++ cs := by
      rw [hcons, List.dropWhile_cons, if_neg (by simp [hc])]
    rw [hkept]
    exact .name hn h

/-- Trimming takes spaces from the ends of a clean text and does not touch its names. -/
theorem IsClean.trim (h : IsClean cs) : IsClean (Text.trim cs) := by
  have hfront := h.dropWhile_blank
  rw [Text.trim_eq_rdropWhile]
  generalize cs.dropWhile Text.isBlank = ds at hfront
  induction ds using List.reverseRecOn with
  | nil => exact .nil
  | append_singleton ds c ih =>
    rw [List.rdropWhile_concat]
    split
    · rename_i hb
      exact ih (hfront.of_concat_blank hb ds rfl)
    · exact hfront

/-- A fault of the grammar is neither an empty text nor a character. -/
theorem Parser.Fault.ne {ts : List Token} (h : Fault ts err) :
    err ≠ .empty ∧ ∀ c q, err ≠ .unexpectedChar c q := by
  cases h with
  | @unexpected mid _ => cases mid <;> simp [Parser.unexpected]
  | unclosed _ _ => simp
  | target _ => simp
  | unknown _ => simp
  | notCallable _ => simp
  | missingCall _ => simp

/-- Clean texts are refused neither as empty nor for a character. -/
theorem parse_ne_of_isClean (hc : IsClean text) (h : parse text = .error err) :
    err ≠ .empty ∧ ∀ c q, err ≠ .unexpectedChar c q := by
  rcases parse_eq_error h with h | ⟨ts, -, hf⟩
  · have hlexical : ∀ c ∈ text, Text.isBlank c = false → isLexical c = true :=
      fun c hmem => isLexical_of_mem (hc.subset_alphabet hmem)
    obtain ⟨literal, q, rfl⟩ := tokensFrom_eq_error hlexical h
    simp
  · exact hf.ne

end Expr

namespace Path

/-- What is left of a text to be parsed. -/
def kept (text : String) : List Char :=
  Text.trim (filter text.toList).text

variable {text : String} {p : Path}

theorem isClean_kept (text : String) : IsClean (kept text) :=
  (isClean_filter text.toList).trim

/-- To trim what is left once more takes nothing off it. -/
theorem trim_kept (h : kept text ≠ []) : Text.trim (kept text) = kept text := by
  refine trim_eq ?_ ?_
  · obtain ⟨c, rest, hc⟩ := List.exists_cons_of_ne_nil h
    have hhead : (kept text).head? = some c := by rw [hc]; rfl
    exact ⟨c, hhead, Text.not_isBlank_of_head_trim hhead⟩
  · have hlast := List.getLast?_eq_some_getLast h
    exact ⟨_, hlast, Text.not_isBlank_of_getLast_trim hlast⟩

/-- What a text compiles to is decided by what is left of it. -/
theorem compile_cases (text : String) :
    kept text = [] ∧ compile text = .error .empty ∨
    kept text ≠ [] ∧
      ((∃ err, parse (kept text) = .error err ∧ compile text = .error err) ∨
        ∃ e, parse (kept text) = .ok e ∧ compile text = .ok ⟨e, String.ofList (kept text)⟩) := by
  rw [compile, ← kept]
  cases hk : kept text with
  | nil => exact .inl ⟨rfl, rfl⟩
  | cons c cs =>
    refine .inr ⟨List.cons_ne_nil c cs, ?_⟩
    show (∃ err, _ ∧ (parse (c :: cs) >>= _) = _) ∨ ∃ e, _ ∧ (parse (c :: cs) >>= _) = _
    cases parse (c :: cs) with
    | error err => exact .inl ⟨err, rfl, rfl⟩
    | ok e => exact .inr ⟨e, rfl, rfl⟩

theorem kept_eq_nil_iff : kept text = [] ↔ ∀ c ∈ (filter text.toList).text, c = ' ' := by
  rw [kept, Text.trim_eq_nil_iff]
  constructor
  · intro h c hc
    exact eq_space_of_isBlank ((isClean_filter text.toList).subset_alphabet hc) (h c hc)
  · intro h c hc
    rw [h c hc]
    rfl

/-- A text counts as empty if the filter leaves nothing but blanks of it. -/
theorem compile_eq_error_empty_iff :
    compile text = .error .empty ↔ ∀ c ∈ (filter text.toList).text, c = ' ' := by
  rw [← kept_eq_nil_iff]
  rcases compile_cases text with ⟨hk, h⟩ | ⟨hk, ⟨err, hparse, h⟩ | ⟨e, -, h⟩⟩
  · exact iff_of_true h hk
  · have hne := (parse_ne_of_isClean (isClean_kept text) hparse).1
    refine iff_of_false (fun heq => ?_) hk
    rw [h] at heq
    exact hne (Except.error.inj heq)
  · exact iff_of_false (by simp [h]) hk

/-- The filter and trimming leave no character that is in no token. -/
theorem compile_ne_unexpectedChar (text : String) (c : Char) (q : Nat) :
    compile text ≠ .error (.unexpectedChar c q) := by
  rcases compile_cases text with ⟨-, h⟩ | ⟨-, ⟨err, hparse, h⟩ | ⟨e, -, h⟩⟩
  · simp [h]
  · have hne := (parse_ne_of_isClean (isClean_kept text) hparse).2 c q
    intro heq
    rw [h] at heq
    exact hne (Except.error.inj heq)
  · simp [h]

/-- The source of a path is what was left of its text, and compiles to that path. -/
theorem compile_source (h : compile text = .ok p) :
    p.source.toList = kept text ∧ kept text ≠ [] ∧ compile p.source = .ok p := by
  rcases compile_cases text with ⟨-, hc⟩ | ⟨hk, ⟨err, -, hc⟩ | ⟨e, hparse, hc⟩⟩
  · simp [hc] at h
  · simp [hc] at h
  · obtain rfl := Except.ok.inj (hc.symm.trans h)
    refine ⟨String.toList_ofList, hk, ?_⟩
    rw [compile_of_clean (isClean_kept text) (trim_kept hk) hk, hparse]
    rfl

/-- Compiling a text is compiling what the filter leaves of it, and no character of that is refused;
it is refused as empty just when only spaces are left. The source of a path is a clean text without
blanks at its ends, and compiles to that path. -/
theorem compile_stable (text : String) :
    compile text = compile (String.ofList (filter text.toList).text) ∧
    (∀ c q, compile text ≠ .error (.unexpectedChar c q)) ∧
    (compile text = .error .empty ↔ ∀ c ∈ (filter text.toList).text, c = ' ') ∧
    ∀ p, compile text = .ok p →
      p.source ≠ "" ∧
      (∀ c, p.source.toList.head? = some c → Text.isBlank c = false) ∧
      (∀ c, p.source.toList.getLast? = some c → Text.isBlank c = false) ∧
      IsClean p.source.toList ∧
      compile p.source = .ok p := by
  refine ⟨?_, compile_ne_unexpectedChar text, compile_eq_error_empty_iff, fun p h => ?_⟩
  · rw [compile, compile, String.toList_ofList, filter_filter]
  · obtain ⟨hlist, hk, hagain⟩ := compile_source h
    rw [hlist]
    refine ⟨?_, ?_, ?_, isClean_kept text, hagain⟩
    · rintro hempty
      exact hk (by rw [← hlist, hempty]; rfl)
    · exact fun c hc => Text.not_isBlank_of_head_trim hc
    · exact fun c hc => Text.not_isBlank_of_getLast_trim hc

/-- The filter leaves a blank at both ends of this text, and trimming takes them away. -/
theorem compile_stable_padded : compile "é (-x); " = compile " (-x) " ∧
    ∃ p, compile "é (-x); " = .ok p ∧ p.source = "(-x)" ∧ IsClean p.source.toList ∧
      compile "(-x)" = .ok p := by
  let t : Term := .negate .var
  have hfilter : (filter "é (-x); ".toList).text = " (-x) ".toList := by decide +kernel
  have hkept : kept "é (-x); " = t.text := by decide +kernel
  have hc : compile "é (-x); " = .ok ⟨t.expr, "(-x)"⟩ := by
    rcases compile_cases "é (-x); " with ⟨hnil, -⟩ | ⟨-, ⟨err, hparse, -⟩ | ⟨e, hparse, h⟩⟩
    · rw [hkept] at hnil
      cases hnil
    · rw [hkept, parse_text t] at hparse
      cases hparse
    · rw [hkept, parse_text t] at hparse
      rw [h, ← Except.ok.inj hparse, hkept]
      rfl
  obtain ⟨hsame, -, -, hpath⟩ := compile_stable "é (-x); "
  obtain ⟨-, -, -, hclean, hagain⟩ := hpath _ hc
  rw [hfilter] at hsame
  exact ⟨hsame, _, hc, rfl, hclean, hagain⟩

end Path

end SparkTrail
