import SparkTrail.Proofs.Expr.Completeness
import SparkTrail.Proofs.Expr.Failures
import SparkTrail.Proofs.Expr.Pieces
import SparkTrail.Proofs.Expr.Situation

/-!
# The first offending token

Where reading stops at a token, or at the end of the text, all before it is the beginning of some
expression and the token is no way to go on. The first holds because what a reader has read when it
fails can be completed to its phrase. For the second, that is followed through the situations of the
grammar: the readers before the one that fails lead behind an operand and have left none of their
separators, and in the situation where it fails the token cannot come next.
-/
namespace SparkTrail.Expr

/-- Whether an error is that of a token, or of the end of the text, where it cannot stand. -/
def Error.isMisplacement : Error → Bool
  | .unexpectedToken _ _ | .unexpectedEnd | .unclosedParenthesis _ => true
  | _ => false

namespace Grammar

/-- In which situations a phrase is read. The arguments of a call have a comma of their own, so a
sequence is not read where those of a call are. -/
def Phrase.Starts : Phrase → Situation → Prop
  | .list .sequence, s => s.awaited = .operand ∧ s.brackets.head? ≠ some .call
  | .more .sequence, s => s.awaited.isBehind = true ∧ s.brackets.head? ≠ some .call
  | .more _, s => s.awaited.isBehind = true
  | .arguments, s => s.awaited = .argument ∧ s.brackets.head? = some .call
  | _, s => s.awaited = .operand

/-- The first of the tokens cannot come next or, if there is none, the expression cannot be over. -/
def Situation.Refuses (s : Situation) : List Token → Prop
  | [] => ¬ s.IsFinal
  | t :: _ => s.next? t.kind = none

end Grammar

namespace Parser

open Grammar Situation

variable {P Q : Phrase} {r : Rank} {q : Awaited} {brackets : List Bracket} {e lhs : Expr}
  {es : List Expr} {ts front mid rest : List Token} {us : List TokenKind} {k : TokenKind} {p : Nat}
  {err : Error}

section Ends

/-- Neither a step nor a separator of the level or below comes next. -/
def Ends (level : Nat) (ts : List Token) : Prop :=
  ∀ k, next ts = some k → k.level = 0 ∨ level < k.level

theorem Ends.above {n : Nat} (h : Ends n ts) (hk : ∀ k, next ts = some k → k.level ≠ n + 1) :
    Ends (n + 1) ts := by
  intro k hn
  have hne := hk k hn
  rcases h k hn with hzero | hlt
  · exact .inl hzero
  · exact .inr (by omega)

/-- Behind the steps of an operand no further step comes. -/
theorem ends_steps (h : Reads (steps lhs ts) e rest) : Ends 1 rest := by
  have hstep : ∀ s, next rest ≠ some (.step s) := by
    by_cases hn : ∃ s, next ts = some (.step s)
    · obtain ⟨s, hs⟩ := hn
      obtain ⟨p, tail, rfl⟩ := next_eq_some.mp hs
      obtain ⟨-, hmore, -, rfl⟩ := reads_steps_step.mp h
      exact hmore
    · obtain ⟨-, rfl⟩ := (reads_steps_stop (not_exists.mp hn)).mp h
      exact not_exists.mp hn
  intro k hk
  cases k with
  | step s => exact absurd hk (hstep s)
  | opening => exact .inl rfl
  | _ => exact .inr (by simp [TokenKind.level])

theorem ends_signed {ts : List Token} {e : Expr} (h : Reads (signed ts) e rest) : Ends 1 rest := by
  by_cases hm : next ts = some .minus
  · obtain ⟨p, tail, hts, hlt⟩ := cons_of_next hm
    rw [hts] at h
    obtain ⟨operand, ho, -⟩ := reads_signed_minus.mp h
    exact ends_signed ho
  by_cases hp : next ts = some .plus
  · obtain ⟨p, tail, hts, hlt⟩ := cons_of_next hp
    rw [hts] at h
    exact ends_signed (reads_signed_plus.mp h)
  by_cases hs : ∃ s, next ts = some (.step s)
  · obtain ⟨s, hs⟩ := hs
    obtain ⟨p, tail, hts, hlt⟩ := cons_of_next hs
    rw [hts] at h
    exact ends_signed (reads_signed_step.mp h).1
  obtain ⟨operand, mid, -, hsteps⟩ := (reads_signed_stepped hp hm (not_exists.mp hs)).mp h
  exact ends_steps hsteps
  termination_by ts.length

theorem ends_productRest {ts : List Token} {lhs : Expr} (h : Reads (productRest lhs ts) e rest)
    (hts : Ends 1 ts) : Ends 2 rest := by
  by_cases hm : next ts = some .star
  · obtain ⟨p, tail, heq, hlt⟩ := cons_of_next hm
    rw [heq] at h
    obtain ⟨rhs, mid, hs, hr⟩ := reads_productRest_star.mp h
    have := hs.within
    exact ends_productRest hr (ends_signed hs)
  by_cases hd : next ts = some .slash
  · obtain ⟨p, tail, heq, hlt⟩ := cons_of_next hd
    rw [heq] at h
    obtain ⟨rhs, mid, hs, hr⟩ := reads_productRest_slash.mp h
    have := hs.within
    exact ends_productRest hr (ends_signed hs)
  obtain ⟨-, rfl⟩ := (reads_productRest_stop hm hd).mp h
  refine hts.above fun k hk => ?_
  cases k with
  | star => exact absurd hk hm
  | slash => exact absurd hk hd
  | _ => simp [TokenKind.level]
  termination_by ts.length

theorem ends_product (h : Reads (product ts) e rest) : Ends 2 rest := by
  obtain ⟨first, mid, hs, hr⟩ := reads_product.mp h
  exact ends_productRest hr (ends_signed hs)

theorem ends_sumRest {ts : List Token} {lhs : Expr} (h : Reads (sumRest lhs ts) e rest)
    (hts : Ends 2 ts) : Ends 3 rest := by
  by_cases hp : next ts = some .plus
  · obtain ⟨p, tail, heq, hlt⟩ := cons_of_next hp
    rw [heq] at h
    obtain ⟨rhs, mid, hs, hr⟩ := reads_sumRest_plus.mp h
    have := hs.within
    exact ends_sumRest hr (ends_product hs)
  by_cases hm : next ts = some .minus
  · obtain ⟨p, tail, heq, hlt⟩ := cons_of_next hm
    rw [heq] at h
    obtain ⟨rhs, mid, hs, hr⟩ := reads_sumRest_minus.mp h
    have := hs.within
    exact ends_sumRest hr (ends_product hs)
  obtain ⟨-, rfl⟩ := (reads_sumRest_stop hp hm).mp h
  refine hts.above fun k hk => ?_
  cases k with
  | plus => exact absurd hk hp
  | minus => exact absurd hk hm
  | _ => simp [TokenKind.level]
  termination_by ts.length

theorem ends_sum (h : Reads (sum ts) e rest) : Ends 3 rest := by
  obtain ⟨first, mid, hp, hr⟩ := reads_sum.mp h
  exact ends_sumRest hr (ends_product hp)

/-- Behind a sum that no comma follows, a sequence ends. -/
theorem Ends.sequence (h : Ends 3 ts) (hn : next ts ≠ some .comma) : Ends 4 ts := by
  refine h.above fun k hk => ?_
  cases k with
  | comma => exact absurd hk hn
  | _ => simp [TokenKind.level]

/-- Behind a whole sequence nothing comes that would go on with any list. -/
theorem ends_sequenceRest {ts : List Token} {es : List Expr}
    (h : Reads (sequenceRest ts) es rest) (hts : Ends 3 ts) : Ends 4 rest := by
  by_cases hn : next ts = some .comma
  · obtain ⟨p, tail, heq, hlt⟩ := cons_of_next hn
    rw [heq] at h
    obtain ⟨item, mid, more, hs, hm, -⟩ := reads_sequenceRest_comma.mp h
    have := hs.within
    exact ends_sequenceRest hm (ends_sum hs)
  obtain ⟨-, rfl⟩ := (reads_sequenceRest_stop hn).mp h
  exact hts.sequence hn
  termination_by ts.length

theorem ends_sequence (h : Reads (sequence ts) e rest) : Ends 4 rest := by
  obtain ⟨first, mid, more, hs, hm, -⟩ := reads_sequence.mp h
  exact ends_sequenceRest hm (ends_sum hs)

end Ends

section Used

theorem derived_sequence (h : Reads (sequence ts) e rest) :
    Used (Derives (.list .sequence)) ts rest :=
  (used_sequence h).mono fun _ => derives_of_isSequence

theorem derived_sum (h : Reads (sum ts) e rest) : Used (Derives (.list .sum)) ts rest :=
  (used_sum h).mono fun _ => derives_of_isSum

theorem derived_product (h : Reads (product ts) e rest) :
    Used (Derives (.list .product)) ts rest :=
  (used_product h).mono fun _ => derives_of_isProduct

theorem derived_signed (h : Reads (signed ts) e rest) : Used (Derives .signed) ts rest :=
  (used_signed h).mono fun _ => derives_of_isSigned

/-- Arguments that the parenthesis does not follow are a sequence, without a comma at its end. -/
theorem derived_arguments {ts : List Token} {es : List Expr} (h : Reads (arguments ts) es rest)
    (hn : next rest ≠ some .closing) :
    Used (Derives (.list .sequence)) ts rest ∧ Ends 4 rest := by
  have hts : next ts ≠ some .closing := by
    intro hc
    obtain ⟨-, rfl⟩ := (reads_arguments_closing hc).mp h
    exact hn hc
  obtain ⟨first, mid, hs, hr⟩ := (reads_arguments_sum hts).mp h
  have := hs.within
  rcases hr with ⟨p, tail, more, hmid, ha, -⟩ | ⟨hcomma, -, rfl⟩
  · have hlt : tail.length < mid.length := by simp [hmid]
    obtain ⟨hused, hends⟩ := derived_arguments ha hn
    refine ⟨?_, hends⟩
    rw [hmid] at hs
    obtain ⟨used, rfl, hu⟩ := derived_sum hs
    obtain ⟨used', rfl, hu'⟩ := hused
    refine ⟨used ++ ⟨.comma, p⟩ :: used', by simp, ?_⟩
    rw [List.map_append]
    exact .list hu (derives_more_of_list List.mem_cons_self hu')
  · exact ⟨(derived_sum hs).mono fun _ => derives_list_of_item (r := .sequence),
      (ends_sum hs).sequence hcomma⟩
  termination_by ts.length

end Used

section Offends

/-- The error tells the first of these tokens, or the end if there is none. -/
inductive Tells : Error → List Token → Prop
  | unexpected (mid : List Token) : Tells (unexpected mid) mid
  | unclosed (p : Nat) : Tells (.unclosedParenthesis p) []

/-- Reading a phrase stops at the token that the error tells: what is before it can be completed to
a phrase, and leads from where the phrase starts to a situation that refuses the token. -/
def Offends (P : Phrase) (ts : List Token) (err : Error) : Prop :=
  ∃ front mid, ts = front ++ mid ∧ Tells err mid ∧ Viable P (front.map (·.kind)) ∧
    ∀ s, P.Starts s → ∃ s', s.after? (front.map (·.kind)) = some s' ∧ s'.Refuses mid

/-- A phrase stops where a part of it does. -/
theorem Offends.behind (h : Offends Q mid err) (front : List Token)
    (hlead : ∀ s, P.Starts s → ∃ s', s.after? (front.map (·.kind)) = some s' ∧ Q.Starts s')
    (hviable : ∀ us, Viable Q us → Viable P (front.map (·.kind) ++ us)) :
    Offends P (front ++ mid) err := by
  obtain ⟨front', mid', rfl, htells, hv, hrun⟩ := h
  refine ⟨front ++ front', mid', by rw [List.append_assoc], htells, ?_, ?_⟩
  · rw [List.map_append]
    exact hviable _ hv
  · intro s hs
    obtain ⟨s', hafter, hstart⟩ := hlead s hs
    obtain ⟨s'', hafter', hrefuses⟩ := hrun s' hstart
    rw [List.map_append, after?_append hafter]
    exact ⟨s'', hafter', hrefuses⟩

/-- A phrase stops where its first part does. -/
theorem Offends.mono (h : Offends Q ts err) (hstart : ∀ s, P.Starts s → Q.Starts s)
    (hviable : ∀ us, Viable Q us → Viable P us) : Offends P ts err :=
  h.behind [] (fun s hs => ⟨s, rfl, hstart s hs⟩) hviable

theorem Offends.first (h : Offends r.item ts err) : Offends (.list r) ts err := by
  refine h.mono (fun s hs => ?_) fun _ => Viable.first
  cases r with
  | sequence => exact hs.1
  | sum => exact hs
  | product => exact hs

/-- An offence behind the first item of a list is one of the list. -/
theorem Offends.further (h : Offends (.more r) mid err) (hu : Used (Derives r.item) ts mid) :
    Offends (.list r) ts err := by
  obtain ⟨used, rfl, hd⟩ := hu
  refine h.behind used (fun s hs => ?_) fun _ => Viable.further hd
  obtain ⟨q, brackets⟩ := s
  have hq : q.isBefore = true := by
    cases r with
    | sequence => obtain ⟨rfl, -⟩ := hs; rfl
    | sum => obtain rfl := hs; rfl
    | product => obtain rfl := hs; rfl
  obtain ⟨q', hq', hafter⟩ := leads_item.mp (leads_of_derives hd) q brackets hq
  refine ⟨_, hafter, ?_⟩
  cases r with
  | sequence => exact ⟨hq', hs.2⟩
  | sum => exact hq'
  | product => exact hq'

/-- A list behind a separator goes on with another list, so an offence in the one is an offence of
the other. -/
theorem Offends.separator (h : Offends (.list r) ts err) (hk : k ∈ r.separators) (p : Nat) :
    Offends (.more r) (⟨k, p⟩ :: ts) err := by
  refine h.behind [⟨k, p⟩] (fun s hs => ?_) fun _ => Viable.separator hk
  obtain ⟨q, brackets⟩ := s
  cases r with
  | sequence =>
    obtain rfl := List.mem_singleton.mp hk
    have hnext : next? ⟨q, brackets⟩ .comma = some ⟨.operand, brackets⟩ := by
      rw [next?_behind hs.1 (by simp), operator?, if_neg hs.2]
    exact ⟨_, after?_cons hnext [], rfl, hs.2⟩
  | sum => exact ⟨_, after?_cons (next?_operator hs (by simp) hk) [], rfl⟩
  | product => exact ⟨_, after?_cons (next?_operator hs (by simp) hk) [], rfl⟩

theorem Offends.sign (h : Offends .signed ts err) (hk : isSign k = true) (p : Nat) :
    Offends .signed (⟨k, p⟩ :: ts) err := by
  refine h.behind [⟨k, p⟩] (fun s hs => ?_) fun _ => Viable.sign hk
  obtain ⟨q, brackets⟩ := s
  obtain rfl := hs
  have hnext : next? ⟨.operand, brackets⟩ k = some ⟨.operand, brackets⟩ := by
    cases k <;> first | rfl | cases hk
  exact ⟨_, after?_cons hnext [], rfl⟩

/-- The first argument starts as any sum does, but where there is none. -/
theorem Offends.argument (h : Offends (.list .sum) ts err) (hn : next ts ≠ some .closing) :
    Offends .arguments ts err := by
  obtain ⟨front, mid, rfl, htells, hv, hrun⟩ := h
  refine ⟨front, mid, rfl, htells, hv.argument, ?_⟩
  rintro ⟨_, brackets⟩ ⟨rfl, -⟩
  obtain ⟨s', hafter, hrefuses⟩ := hrun ⟨.operand, brackets⟩ rfl
  have hnext {k} (hk : k ≠ .closing) :
      next? ⟨.argument, brackets⟩ k = next? ⟨.operand, brackets⟩ k :=
    next?_before rfl hk
  cases front with
  | nil =>
    cases hafter
    refine ⟨_, rfl, ?_⟩
    cases mid with
    | nil => exact fun hf => absurd hf.1 (by simp [Awaited.isBehind])
    | cons t mid => exact (hnext fun hk => hn (congrArg some hk)).trans hrefuses
  | cons t front =>
    refine ⟨s', ?_, hrefuses⟩
    rw [after?, List.map_cons, List.foldlM_cons] at hafter ⊢
    rwa [hnext fun hk => hn (congrArg some hk)]

/-- An offence in the arguments behind a comma is one of all the arguments. -/
theorem Offends.arguments (h : Offends .arguments ts err) (p : Nat)
    (hu : Used (Derives (.list .sum)) mid (⟨.comma, p⟩ :: ts)) : Offends .arguments mid err := by
  obtain ⟨used, rfl, hd⟩ := hu
  rw [List.append_cons]
  refine h.behind (used ++ [⟨.comma, p⟩]) ?_ fun us hus => ?_
  · rintro ⟨_, brackets⟩ ⟨rfl, hcall⟩
    obtain ⟨q, hq, hafter⟩ := leads_of_derives hd .argument brackets rfl
    have hnext : next? ⟨q, brackets⟩ .comma = some ⟨.argument, brackets⟩ := by
      rw [next?_behind hq (by simp), operator?, if_pos hcall]
    refine ⟨_, ?_, rfl, hcall⟩
    rw [List.map_append, after?_append hafter]
    exact after?_cons hnext []
  · rw [List.map_append, List.append_assoc]
    exact Viable.arguments hd hus

/-- Behind an operand that is read to its end, what comes next is refused: a parenthesis where none
is open, the end of the text where one is, and all that no separator stands before. -/
theorem refuses_of_ends (hq : q.isBehind = true) (h : Ends 4 mid)
    (hclosing : next mid = some .closing → brackets = []) (hend : mid = [] → brackets ≠ []) :
    Refuses ⟨q, brackets⟩ mid := by
  rcases mid with _ | ⟨⟨k, p⟩, mid⟩
  · exact fun hf => hend rfl hf.2
  · have hlevel : k.level = 0 ∨ 4 < k.level := h k rfl
    show next? ⟨q, brackets⟩ k = none
    cases k with
    | closing =>
      rw [next?_behind hq (by simp), hclosing rfl]
      rfl
    | number v => exact next?_behind hq (by simp)
    | name name => exact next?_behind hq (by simp)
    | opening => exact next?_behind hq (by simp)
    | _ => exact absurd hlevel (by simp [TokenKind.level])

/-- Where a parenthesis is not closed: behind it stands a sequence, and then what ends none. -/
theorem offends_closing {b : Bracket} {inner : List Token} (front : List Token)
    (h : closing p mid = .error err) (hu : Used (Derives (.list .sequence)) inner mid)
    (hends : Ends 4 mid)
    (hlead : ∀ brackets, ∃ q, q.isBefore = true ∧
      after? ⟨.operand, brackets⟩ (front.map (·.kind)) = some ⟨q, b :: brackets⟩)
    (hviable : ∀ us, Derives (.list .sequence) us → Viable .primary (front.map (·.kind) ++ us)) :
    Offends .primary (front ++ inner) err := by
  have htells : Tells err mid ∧ next mid ≠ some .closing := by
    rcases fails_closing h with ⟨rfl, rfl⟩ | ⟨hn, rfl⟩
    · exact ⟨.unclosed p, by simp⟩
    · exact ⟨.unexpected mid, hn⟩
  obtain ⟨used, rfl, hd⟩ := hu
  refine ⟨front ++ used, mid, by rw [List.append_assoc], htells.1, ?_, ?_⟩
  · rw [List.map_append]
    exact hviable _ hd
  · rintro ⟨_, brackets⟩ rfl
    obtain ⟨q, hq, hafter⟩ := hlead brackets
    obtain ⟨q', hq', hafter'⟩ := leads_of_derives hd q (b :: brackets) hq
    rw [List.map_append, after?_append hafter]
    exact ⟨_, hafter', refuses_of_ends hq' hends (fun hc => absurd hc htells.2) fun _ => by simp⟩

/-- What no operand can start with is refused where one is waited for. -/
theorem offends_start (hsign : ∀ k, next ts = some k → isSign k = false)
    (hx : ∀ x, next ts ≠ some (.number x)) (hn : ∀ name, next ts ≠ some (.name name))
    (ho : next ts ≠ some .opening) : Offends .primary ts (unexpected ts) := by
  refine ⟨[], ts, rfl, .unexpected ts, ⟨[.number 0], .number 0⟩, ?_⟩
  rintro ⟨_, brackets⟩ rfl
  refine ⟨_, rfl, ?_⟩
  rcases ts with _ | ⟨⟨k, p⟩, tail⟩
  · exact fun hf => absurd hf.1 (by simp [Awaited.isBehind])
  · have hk := hsign k rfl
    show operand? brackets k = none
    cases k with
    | number x => exact absurd rfl (hx x)
    | name name => exact absurd rfl (hn name)
    | opening => exact absurd rfl ho
    | plus => cases hk
    | minus => cases hk
    | step s => cases hk
    | _ => rfl

end Offends

-- The recursion is that of the readers, with their measure, as for what they read.
mutual

/-- A sequence that is refused for what stands in it is refused at the first token that cannot stand
there. -/
theorem offends_sequence {ts err} (h : sequence ts = .error err)
    (he : err.isMisplacement = true) : Offends (.list .sequence) ts err := by
  rcases fails_sequence.mp h with h | ⟨first, mid, hs, h⟩
  · exact (offends_sum h he).first (r := .sequence)
  · have := hs.within
    exact (offends_sequenceRest h he).further (derived_sum hs)
  termination_by (ts.length, 4)

theorem offends_sequenceRest {ts err} (h : sequenceRest ts = .error err)
    (he : err.isMisplacement = true) : Offends (.more .sequence) ts err := by
  have hcomma : TokenKind.comma ∈ Rank.sequence.separators := List.mem_cons_self
  obtain ⟨p, tail, hts, hlt⟩ := cons_of_next (next_of_fails_sequenceRest h)
  rw [hts] at h ⊢
  refine Offends.separator ?_ hcomma p
  rcases fails_sequenceRest_comma.mp h with h | ⟨item, mid, hs, h⟩
  · exact (offends_sum h he).first (r := .sequence)
  · have := hs.within
    exact (offends_sequenceRest h he).further (derived_sum hs)
  termination_by (ts.length, 0)

theorem offends_sum {ts err} (h : sum ts = .error err) (he : err.isMisplacement = true) :
    Offends (.list .sum) ts err := by
  rcases fails_sum.mp h with h | ⟨first, mid, hp, h⟩
  · exact (offends_product h he).first (r := .sum)
  · have := hp.within
    exact (offends_sumRest h he).further (derived_product hp)
  termination_by (ts.length, 3)

theorem offends_sumRest {ts lhs err} (h : sumRest lhs ts = .error err)
    (he : err.isMisplacement = true) : Offends (.more .sum) ts err := by
  rcases next_of_fails_sumRest h with hn | hn
  · obtain ⟨p, tail, hts, hlt⟩ := cons_of_next hn
    rw [hts] at h ⊢
    refine Offends.separator ?_ (by simp [Rank.separators]) p
    rcases fails_sumRest_plus.mp h with h | ⟨rhs, mid, hp, h⟩
    · exact (offends_product h he).first (r := .sum)
    · have := hp.within
      exact (offends_sumRest h he).further (derived_product hp)
  · obtain ⟨p, tail, hts, hlt⟩ := cons_of_next hn
    rw [hts] at h ⊢
    refine Offends.separator ?_ (by simp [Rank.separators]) p
    rcases fails_sumRest_minus.mp h with h | ⟨rhs, mid, hp, h⟩
    · exact (offends_product h he).first (r := .sum)
    · have := hp.within
      exact (offends_sumRest h he).further (derived_product hp)
  termination_by (ts.length, 0)

theorem offends_product {ts err} (h : product ts = .error err) (he : err.isMisplacement = true) :
    Offends (.list .product) ts err := by
  rcases fails_product.mp h with h | ⟨first, mid, hs, h⟩
  · exact (offends_signed h he).first (r := .product)
  · have := hs.within
    exact (offends_productRest h he).further (derived_signed hs)
  termination_by (ts.length, 2)

theorem offends_productRest {ts lhs err} (h : productRest lhs ts = .error err)
    (he : err.isMisplacement = true) : Offends (.more .product) ts err := by
  rcases next_of_fails_productRest h with hn | hn
  · obtain ⟨p, tail, hts, hlt⟩ := cons_of_next hn
    rw [hts] at h ⊢
    refine Offends.separator ?_ (by simp [Rank.separators]) p
    rcases fails_productRest_star.mp h with h | ⟨rhs, mid, hs, h⟩
    · exact (offends_signed h he).first (r := .product)
    · have := hs.within
      exact (offends_productRest h he).further (derived_signed hs)
  · obtain ⟨p, tail, hts, hlt⟩ := cons_of_next hn
    rw [hts] at h ⊢
    refine Offends.separator ?_ (by simp [Rank.separators]) p
    rcases fails_productRest_slash.mp h with h | ⟨rhs, mid, hs, h⟩
    · exact (offends_signed h he).first (r := .product)
    · have := hs.within
      exact (offends_productRest h he).further (derived_signed hs)
  termination_by (ts.length, 0)

theorem offends_signed {ts err} (h : signed ts = .error err) (he : err.isMisplacement = true) :
    Offends .signed ts err := by
  by_cases hm : next ts = some .minus
  · obtain ⟨p, tail, hts, hlt⟩ := cons_of_next hm
    rw [hts] at h ⊢
    exact (offends_signed (fails_signed_minus.mp h) he).sign rfl p
  by_cases hp : next ts = some .plus
  · obtain ⟨p, tail, hts, hlt⟩ := cons_of_next hp
    rw [hts] at h ⊢
    exact (offends_signed (fails_signed_plus.mp h) he).sign rfl p
  by_cases hs : ∃ s, next ts = some (.step s)
  · obtain ⟨s, hs⟩ := hs
    obtain ⟨p, tail, hts, hlt⟩ := cons_of_next hs
    rw [hts] at h ⊢
    rcases fails_signed_step.mp h with h | ⟨_, _, _, _, rfl⟩
    · exact (offends_signed h he).sign rfl p
    · cases he
  rcases (fails_signed_stepped hp hm (not_exists.mp hs)).mp h with h | ⟨_, _, _, h⟩
  · have hsign : ∀ k, next ts = some k → isSign k = false := by
      intro k hk
      cases k with
      | plus => exact absurd hk hp
      | minus => exact absurd hk hm
      | step s => exact absurd ⟨s, hk⟩ hs
      | _ => rfl
    exact (offends_primary h he hsign).mono (fun _ hs => hs) fun _ => Viable.signed
  · obtain ⟨_, _, _, rfl⟩ := fails_steps h
    cases he
  termination_by (ts.length, 1)

theorem offends_primary {ts err} (h : primary ts = .error err) (he : err.isMisplacement = true)
    (hsign : ∀ k, next ts = some k → isSign k = false) : Offends .primary ts err := by
  -- by the first token: a name, a parenthesis or a number, or else it is the offending one itself
  by_cases hn : ∃ name, next ts = some (.name name)
  · obtain ⟨name, hn⟩ := hn
    obtain ⟨p, tail, hts, hlt⟩ := cons_of_next hn
    rw [hts] at h ⊢
    rcases fails_primary_name h with rfl | rfl | rfl | ⟨f, q, inner, hf, htail⟩
    · cases he
    · cases he
    · cases he
    · rw [htail] at h ⊢
      have hinner : inner.length < ts.length := by
        rw [hts, htail, List.length_cons, List.length_cons]
        omega
      have hlead (brackets) : after? ⟨.operand, brackets⟩ [.name name, .opening] =
          some ⟨.argument, .call :: brackets⟩ :=
        after?_cons (next?_name rfl hf) [.opening]
      have hlookup := meaning?_eq_function.mp hf
      rcases (fails_primary_call hf).mp h with h | ⟨args, mid, ha, h⟩
      · refine (offends_arguments h he).behind [⟨.name name, p⟩, ⟨.opening, q⟩] ?_
          fun _ => Viable.call hlookup
        rintro ⟨_, brackets⟩ rfl
        exact ⟨_, hlead brackets, rfl, rfl⟩
      · have hclosing : next mid ≠ some .closing := by
          rcases fails_closing h with ⟨rfl, -⟩ | ⟨hn, -⟩
          · simp
          · exact hn
        obtain ⟨hused, hends⟩ := derived_arguments ha hclosing
        refine offends_closing [⟨.name name, p⟩, ⟨.opening, q⟩] h hused hends
          (fun brackets => ⟨.argument, rfl, hlead brackets⟩) fun us hus => ?_
        exact Viable.call hlookup (derives_arguments_of_sequence hus).viable
  by_cases ho : next ts = some .opening
  · obtain ⟨p, tail, hts, hlt⟩ := cons_of_next ho
    rw [hts] at h ⊢
    rcases fails_primary_group.mp h with h | ⟨inner, mid, hs, h⟩
    · refine (offends_sequence h he).behind [⟨.opening, p⟩] ?_ fun _ => Viable.group
      rintro ⟨_, brackets⟩ rfl
      exact ⟨_, rfl, rfl, by simp⟩
    · exact offends_closing [⟨.opening, p⟩] h (derived_sequence hs) (ends_sequence hs)
        (fun brackets => ⟨.operand, rfl, rfl⟩) fun us hus => hus.viable.group
  by_cases hx : ∃ x, next ts = some (.number x)
  · obtain ⟨x, hx⟩ := hx
    obtain ⟨p, tail, rfl⟩ := next_eq_some.mp hx
    rw [primary.eq_1] at h
    cases h
  rw [fails_primary_other (not_exists.mp hx) (not_exists.mp hn) ho] at h
  cases h
  exact offends_start hsign (not_exists.mp hx) (not_exists.mp hn) ho
  termination_by (ts.length, 0)

theorem offends_arguments {ts err} (h : arguments ts = .error err)
    (he : err.isMisplacement = true) : Offends .arguments ts err := by
  have hn := next_ne_closing_of_fails_arguments h
  rcases fails_arguments_sum hn h with h | ⟨first, q, tail, hs, h⟩
  · exact (offends_sum h he).argument hn
  · have htail : tail.length < ts.length := Nat.lt_of_succ_lt hs.within
    exact (offends_arguments h he).arguments q (derived_sum hs)
  termination_by (ts.length, 4)

end

end Parser

open SparkTrail.Expr.Grammar SparkTrail.Expr.Parser

variable {text : List Char} {ts : List Token} {err : Error}

/-- Where parsing stops at a token or at the end, the expression before it can be completed, and its
situation refuses what is there. -/
theorem refuses_of_parse (ht : tokens text = .ok ts) (h : parse text = .error err)
    (he : err.isMisplacement = true) : ∃ front mid, ts = front ++ mid ∧ Tells err mid ∧
      Viable .expression (front.map (·.kind)) ∧
      ∃ s, Situation.start.after? (front.map (·.kind)) = some s ∧ s.Refuses mid := by
  unfold parse at h
  rw [ht] at h
  change (Parser.sequence ts >>= _) = _ at h
  cases hs : Parser.sequence ts with
  | error err' =>
    rw [hs] at h
    cases h
    obtain ⟨front, mid, hts, htells, hviable, hrun⟩ := offends_sequence hs he
    exact ⟨front, mid, hts, htells, hviable, hrun .start ⟨rfl, by simp [Situation.start]⟩⟩
  | ok r =>
    rw [hs] at h
    obtain ⟨e, rest, hr⟩ := r
    have hread : Reads (Parser.sequence ts) e rest := ⟨hr, hs⟩
    obtain ⟨used, hts, hd⟩ := derived_sequence hread
    cases rest with
    | nil => cases h
    | cons t tail =>
      cases h
      obtain ⟨q, hq, hafter⟩ := Situation.leads_of_derives hd .operand [] rfl
      have hrefuses := refuses_of_ends hq (ends_sequence hread) (fun _ => rfl) (by simp)
      exact ⟨used, t :: tail, hts, .unexpected _, hd.viable, _, hafter, hrefuses⟩

/-- What leads to a situation cannot be completed together with a token that the situation
refuses. -/
theorem not_viable_of_refuses {us : List TokenKind} {t : Token} {back : List Token} {s : Situation}
    (hs : Situation.start.after? us = some s) (h : s.Refuses (t :: back)) :
    ¬ Viable .expression (us ++ [t.kind]) := by
  intro hviable
  obtain ⟨s', hs'⟩ := Situation.exists_after_of_viable hviable
  have hnext : s.next? t.kind = none := h
  rw [Situation.after?_append hs, Situation.after?, List.foldlM_cons, hnext] at hs'
  cases hs'

theorem not_derives_of_refuses {us : List TokenKind} {s : Situation}
    (hs : Situation.start.after? us = some s) (h : s.Refuses []) : ¬ Derives .expression us := by
  intro hd
  obtain ⟨s', hs', hfinal⟩ := Situation.isFinal_of_derives hd
  obtain rfl := Option.some.inj (hs.symm.trans hs')
  exact h hfinal

/-- A token is refused at the first place where the tokens are no longer the beginning of an
expression; and where the end is refused, the tokens are the beginning of one, but are none. -/
theorem first_offence (ht : tokens text = .ok ts) (h : parse text = .error err) :
    (∀ k p, err = .unexpectedToken k p → ∃ front back, ts = front ++ ⟨k, p⟩ :: back ∧
      (∀ t ∈ front, t.position < p) ∧ Viable .expression (front.map (·.kind)) ∧
      ¬ Viable .expression (front.map (·.kind) ++ [k])) ∧
    (err = .unexpectedEnd ∨ (∃ p, err = .unclosedParenthesis p) →
      Viable .expression (ts.map (·.kind)) ∧ ¬ Derives .expression (ts.map (·.kind))) := by
  constructor
  · rintro k p rfl
    obtain ⟨front, mid, rfl, htells, hviable, s, hafter, hrefuses⟩ := refuses_of_parse ht h rfl
    obtain ⟨back, rfl⟩ : ∃ back, mid = ⟨k, p⟩ :: back := by
      generalize herr : Error.unexpectedToken k p = err at htells
      rcases htells with ⟨_ | ⟨t, back⟩⟩ | _
      · cases herr
      · cases herr
        exact ⟨back, rfl⟩
      · cases herr
    refine ⟨front, back, rfl, ?_, hviable, not_viable_of_refuses hafter hrefuses⟩
    obtain ⟨pieces, last, -, hcuts, -, hts⟩ := tokensFrom_eq_ok_iff.mp ht
    have hpairwise := hcuts.pairwise 0
    rw [← hts] at hpairwise
    exact fun t hmem => (List.pairwise_append.mp hpairwise).2.2 t hmem _ List.mem_cons_self
  · intro hend
    have he : err.isMisplacement = true := by
      rcases hend with rfl | ⟨p, rfl⟩ <;> rfl
    obtain ⟨front, mid, rfl, htells, hviable, s, hafter, hrefuses⟩ := refuses_of_parse ht h he
    obtain rfl : mid = [] := by
      rcases htells with ⟨_ | ⟨t, back⟩⟩ | _
      · rfl
      · rcases hend with hend | ⟨p, hend⟩ <;> cases hend
      · rfl
    rw [List.append_nil]
    exact ⟨hviable, not_derives_of_refuses hafter hrefuses⟩

/-- A call may have a comma before its end, but nothing stands behind it without an operator, and
behind the comma the call is not over. -/
theorem first_offence_behind_call :
    (∃ ts, tokens "sin(x,)x".toList = .ok ts ∧
      parse "sin(x,)x".toList = .error (.unexpectedToken (.name "x") 7) ∧
      ∃ front back, ts = front ++ ⟨.name "x", 7⟩ :: back ∧ (∀ t ∈ front, t.position < 7) ∧
        Viable .expression (front.map (·.kind)) ∧
        ¬ Viable .expression (front.map (·.kind) ++ [.name "x"])) ∧
    ∃ ts, tokens "sin(x,".toList = .ok ts ∧ parse "sin(x,".toList = .error .unexpectedEnd ∧
      Viable .expression (ts.map (·.kind)) ∧ ¬ Derives .expression (ts.map (·.kind)) := by
  have ht : tokens "sin(x,)x".toList = .ok [⟨.name "sin", 0⟩, ⟨.opening, 3⟩, ⟨.name "x", 4⟩,
      ⟨.comma, 5⟩, ⟨.closing, 6⟩, ⟨.name "x", 7⟩] := by
    simp [tokens, lexeme, isNumeral, isNameStart, isNameRest, Text.isBlank]
    rfl
  have ht' : tokens "sin(x,".toList = .ok [⟨.name "sin", 0⟩, ⟨.opening, 3⟩, ⟨.name "x", 4⟩,
      ⟨.comma, 5⟩] := by
    simp [tokens, lexeme, isNumeral, isNameStart, isNameRest, Text.isBlank]
    rfl
  have hx : meaning? "x" = some (.value .var) := rfl
  have hsin : meaning? "sin" = some (.function (.unary .sin)) := rfl
  have hp : parse "sin(x,)x".toList = .error (.unexpectedToken (.name "x") 7) := by
    rw [parse, ht]
    show (Parser.sequence _ >>= _) = _
    simp [Parser.sequence, Parser.sum, product, signed, primary, arguments, hx, hsin, steps,
      productRest, sumRest, sequenceRest, closing, unexpected, bind, Except.bind, pure, Except.pure,
      throw, throwThe, MonadExceptOf.throw, Text.Reading.widen]
  have hp' : parse "sin(x,".toList = .error .unexpectedEnd := by
    rw [parse, ht']
    show (Parser.sequence _ >>= _) = _
    simp [Parser.sequence, Parser.sum, product, signed, primary, arguments, hx, hsin, steps,
      productRest, sumRest, unexpected, bind, Except.bind, pure, Except.pure, throw, throwThe,
      MonadExceptOf.throw, Text.Reading.widen]
  exact ⟨⟨_, ht, hp, (first_offence ht hp).1 _ _ rfl⟩,
    _, ht', hp', (first_offence ht' hp').2 (.inl rfl)⟩

end SparkTrail.Expr
