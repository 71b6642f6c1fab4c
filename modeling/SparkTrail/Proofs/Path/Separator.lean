import Mathlib.Logic.Relation
import SparkTrail.Path.Basic
import SparkTrail.Proofs.Expr.Filter

/-!
# Foreign characters separate

A character is foreign that may not stand by itself and is in no name. No name reaches over one, so
the filter leaves of the text on either side what it would leave of it alone. Between characters
that may stand by themselves this leaves no trace, and such a text compiles to the same path or the
same error with any foreign characters put into it.
-/
namespace SparkTrail

namespace Expr

/-- A character that may not stand by itself and occurs in no name. -/
def IsForeign (c : Char) : Prop :=
  isAllowed c = false ∧ ∀ name ∈ names, c ∉ name

/-- One text is the other with foreign characters put in at one place. -/
def Salts (s t : List Char) : Prop :=
  ∃ a junk b, (∀ c ∈ junk, IsForeign c) ∧ s = a ++ b ∧ t = a ++ junk ++ b

variable {a b cs junk s t : List Char} {c j : Char}

/-- A foreign character is dropped whatever follows it. -/
theorem isJunk_of_isForeign (h : IsForeign c) (cs : List Char) : IsJunk c cs := by
  refine ⟨h.1, ?_⟩
  rintro name hn ⟨rest, hprefix⟩
  obtain ⟨d, more, rfl, -⟩ := name_start hn
  rw [List.cons_append] at hprefix
  obtain rfl := (List.cons.inj hprefix).1
  exact h.2 _ hn List.mem_cons_self

/-- What starts no name starts none that reaches over a foreign character. -/
theorem IsJunk.append_foreign (h : IsJunk c cs) (hj : IsForeign j) (b : List Char) :
    IsJunk c (cs ++ j :: b) := by
  refine ⟨h.1, ?_⟩
  rintro name hn ⟨rest, hprefix⟩
  rw [← List.cons_append] at hprefix
  rcases List.append_eq_append_iff.mp hprefix with ⟨more, hinside, -⟩ | ⟨more, hname, hmore⟩
  · exact h.2 name hn ⟨more, hinside.symm⟩
  · cases more with
    | nil => exact h.2 name hn ⟨[], by simpa using hname⟩
    | cons d more =>
      obtain rfl := (List.cons.inj hmore).1
      exact hj.2 name hn (hname ▸ by simp)

/-- The scan in front of a foreign character does not see what is behind it. -/
theorem filter_append_foreign (hj : IsForeign j) (a b : List Char) :
    filter (a ++ j :: b) = ⟨(filter a).text ++ (filter b).text,
      (filter a).dropped + (filter b).dropped + 1⟩ := by
  induction a using scan_induction with
  | nil => rw [List.nil_append, filter_junk (isJunk_of_isForeign hj b), filter, Nat.zero_add]; rfl
  | char c cs hc ih =>
    rw [List.cons_append, filter_char hc, filter_char hc, ih]
    rfl
  | name name hn cs ih =>
    rw [List.append_assoc, filter_name_append hn, filter_name_append hn, ih, List.append_assoc]
  | junk c cs hc ih =>
    rw [List.cons_append, filter_junk (hc.append_foreign hj b), filter_junk hc, ih,
      Nat.add_right_comm (filter cs).dropped 1]

theorem filter_foreign_append (h : ∀ c ∈ junk, IsForeign c) (b : List Char) :
    filter (junk ++ b) = ⟨(filter b).text, (filter b).dropped + junk.length⟩ := by
  induction junk with
  | nil => rfl
  | cons c junk ih =>
    obtain ⟨hc, hjunk⟩ := List.forall_mem_cons.mp h
    rw [List.cons_append, filter_junk (isJunk_of_isForeign hc _), ih hjunk, List.length_cons,
      Nat.add_assoc]

/-- Foreign characters between two texts are dropped, and each text is filtered as it would be
alone. -/
theorem filter_between (h : ∀ c ∈ junk, IsForeign c) (hne : junk ≠ []) (a b : List Char) :
    filter (a ++ junk ++ b) = ⟨(filter a).text ++ (filter b).text,
      (filter a).dropped + junk.length + (filter b).dropped⟩ := by
  obtain ⟨j, more, rfl⟩ := List.exists_cons_of_ne_nil hne
  obtain ⟨hj, hmore⟩ := List.forall_mem_cons.mp h
  have hcount : (filter a).dropped + ((filter b).dropped + more.length) + 1 =
      (filter a).dropped + (more.length + 1) + (filter b).dropped := by omega
  rw [List.append_assoc, List.cons_append, filter_append_foreign hj, filter_foreign_append hmore,
    List.length_cons, hcount]

/-- Without names, what is left are the allowed characters. -/
theorem filter_of_mixed (h : ∀ c ∈ t, isAllowed c = true ∨ IsForeign c) :
    (filter t).text = t.filter isAllowed := by
  induction t with
  | nil =>
    rw [filter]
    rfl
  | cons c t ih =>
    obtain ⟨hc, ht⟩ := List.forall_mem_cons.mp h
    rcases hc with hc | hc
    · rw [filter_char hc, List.filter_cons_of_pos hc, ih ht]
    · have hnot : ¬ isAllowed c = true := by simp [hc.1]
      rw [filter_junk (isJunk_of_isForeign hc t), List.filter_cons_of_neg hnot, ih ht]

/-- Putting foreign characters in adds foreign characters and nothing else. -/
theorem mixed_of_salts (hs : s.all isAllowed = true) (h : Relation.ReflTransGen Salts s t) :
    (∀ c ∈ t, isAllowed c = true ∨ IsForeign c) ∧ t.filter isAllowed = s := by
  induction h with
  | refl =>
    have hall := List.all_eq_true.mp hs
    exact ⟨fun c hc => .inl (hall c hc), List.filter_eq_self.mpr hall⟩
  | tail _ hstep ih =>
    obtain ⟨a, junk, b, hjunk, rfl, rfl⟩ := hstep
    obtain ⟨hmixed, hfilter⟩ := ih
    refine ⟨?_, ?_⟩
    · intro c hc
      simp only [List.mem_append] at hc
      rcases hc with (hc | hc) | hc
      · exact hmixed c (List.mem_append_left b hc)
      · exact .inr (hjunk c hc)
      · exact hmixed c (List.mem_append_right a hc)
    · have hnone : junk.filter isAllowed = [] :=
        List.filter_eq_nil_iff.mpr fun c hc => by simp [(hjunk c hc).1]
      rw [List.filter_append, List.filter_append, hnone, List.append_nil, ← List.filter_append,
        hfilter]

theorem filter_of_salts (hs : s.all isAllowed = true) (h : Relation.ReflTransGen Salts s t) :
    (filter t).text = (filter s).text := by
  obtain ⟨hmixed, hfilter⟩ := mixed_of_salts hs h
  rw [filter_of_mixed hmixed, hfilter, filter_of_isClean (isClean_of_allowed hs)]

end Expr

namespace Path

open SparkTrail.Expr

/-- Foreign characters part a text in two for the filter, and are dropped. Put in anywhere between
characters that may stand by themselves, they do not change what a text compiles to. -/
theorem foreign_separates :
    (∀ a junk b : List Char, junk ≠ [] → (∀ c ∈ junk, IsForeign c) →
      (filter (a ++ junk ++ b)).text = (filter a).text ++ (filter b).text ∧
      (filter (a ++ junk ++ b)).dropped =
        (filter a).dropped + junk.length + (filter b).dropped) ∧
    ∀ s t : List Char, s.all isAllowed = true → Relation.ReflTransGen Salts s t →
      compile (String.ofList t) = compile (String.ofList s) := by
  refine ⟨?_, ?_⟩
  · intro a junk b hne hjunk
    rw [filter_between hjunk hne]
    exact ⟨rfl, rfl⟩
  · intro s t hs h
    rw [compile, compile, String.toList_ofList, String.toList_ofList, filter_of_salts hs h]

/-- A name is cut in two, and of a sum nothing is lost. -/
theorem foreign_separates_name :
    (filter ("at".toList ++ "é;".toList ++ "an2(x)".toList)).text = "2(x)".toList ∧
    (filter ("at".toList ++ "an2(x)".toList)).text = "atan2(x)".toList ∧
    compile "x;;+é1" = compile "x+1" := by
  have hsemicolon : IsForeign ';' := ⟨by decide, by decide⟩
  have hletter : IsForeign 'é' := ⟨by decide, by decide⟩
  have hfirst : Salts "x+1".toList "x+é1".toList :=
    ⟨"x+".toList, ['é'], ['1'], by simpa using hletter, rfl, rfl⟩
  have hsecond : Salts "x+é1".toList "x;;+é1".toList :=
    ⟨['x'], [';', ';'], "+é1".toList, by simpa using hsemicolon, rfl, rfl⟩
  have hname := (foreign_separates.1 "at".toList "é;".toList "an2(x)".toList (by decide)
    (by simpa using ⟨hletter, hsemicolon⟩)).1
  have hleft : (filter "at".toList).text = [] := by decide +kernel
  have hright : (filter "an2(x)".toList).text = "2(x)".toList := by decide +kernel
  rw [hleft, hright, List.nil_append] at hname
  exact ⟨hname, by decide +kernel,
    foreign_separates.2 "x+1".toList "x;;+é1".toList (by decide) (.tail (.single hfirst) hsecond)⟩

end Path

end SparkTrail
