import SparkTrail.Proofs.Decimal.Sign
import SparkTrail.Proofs.Expr.Parse
import SparkTrail.Proofs.Expr.Pieces
import SparkTrail.Proofs.Expr.Updates

/-!
# The shape of what is read

Not every tree is read from a text. In one that is, a sequence has at least two items, so
evaluation never comes to a sequence that has no last item to take its value from. And a number in
it is the value of a numeral and so not below zero, but for what stands in place of an argument that
was not written, which is always behind those that were.
-/
namespace SparkTrail.Expr

open SparkTrail.Expr.Grammar

/-- Whether the gap is where a call can leave out an argument: no argument stands behind it, or one
that is left out as well and then no other. -/
def Frame.LeavesOut : Frame → Prop
  | .unaryArgument _ extra => extra = []
  | .binaryFirst _ rhs extra => rhs = missing ∧ extra = []
  | .binarySecond _ _ extra => extra = []
  | _ => False

/-- A tree made of numbers that are not below zero, of calls of the arguments in a list, which may
be too few or too many, and of sequences of at least two items. -/
inductive IsShaped : Expr → Prop
  | number {v : Float} : 0 ≤ v → IsShaped (.number v)
  | var : IsShaped .var
  | constant (c : Constant) : IsShaped (.constant c)
  | negate {e : Expr} : IsShaped e → IsShaped (.negate e)
  | binary {lhs rhs : Expr} (op : Operator) :
      IsShaped lhs → IsShaped rhs → IsShaped (.binary op lhs rhs)
  | update (s : Step) (place : Place) : IsShaped (.update s place)
  | unaryCall {args : List Expr} (f : UnaryFn) : (∀ a ∈ args, IsShaped a) →
      IsShaped (.unaryCall f (args.getD 0 missing) (args.drop 1))
  | binaryCall {args : List Expr} (f : BinaryFn) : (∀ a ∈ args, IsShaped a) →
      IsShaped (.binaryCall f (args.getD 0 missing) (args.getD 1 missing) (args.drop 2))
  | sequence {items : List Expr} : 2 ≤ items.length → (∀ e ∈ items, IsShaped e) →
      IsShaped (.sequence items)

mutual

/-- What `run` gives, where nothing is taken for the value of a sequence without items: with such a
sequence in it, an expression has no value. -/
def run? : Expr → Float → Option (Float × Float)
  | .number v, x => some (v, x)
  | .var, x => some (x, x)
  | .constant c, x => some (c.value, x)
  | .negate e, x => do
    let (v, x) ← e.run? x
    return (-v, x)
  | .binary op lhs rhs, x => do
    let (a, x) ← lhs.run? x
    let (b, x) ← rhs.run? x
    return (op.apply a b, x)
  | .update step place, x =>
    let changed := x + step.delta
    some (match place with
      | .before => changed
      | .after => x, changed)
  | .unaryCall f arg extra, x => do
    let (v, x) ← arg.run? x
    let (_, x) ← runAll? none extra x
    return (f.apply v, x)
  | .binaryCall f lhs rhs extra, x => do
    let (a, x) ← lhs.run? x
    let (b, x) ← rhs.run? x
    let (_, x) ← runAll? none extra x
    return (f.apply a b, x)
  | .sequence items, x => do
    let (v, x) ← runAll? none items x
    return (← v, x)

/-- The value, if any, of the last of several expressions evaluated one after the other, `last` if
there are none, and the variable afterwards. -/
def runAll? (last : Option Float) : List Expr → Float → Option (Option Float × Float)
  | [], x => some (last, x)
  | e :: es, x => do
    let (v, x) ← e.run? x
    runAll? (some v) es x

end

variable {e : Expr} {args items es : List Expr} {frame : Frame} {frames : List Frame}
  {more : List (Operator × Expr)} {ts us : List TokenKind}

section Nodes

/-- An argument is one of those in the list, or these are too few. -/
theorem getD_mem_or (args : List Expr) (i : Nat) :
    args.getD i missing ∈ args ∨ args.getD i missing = missing ∧ args.length ≤ i := by
  rcases Nat.lt_or_ge i args.length with h | h
  · rw [List.getD_eq_getElem _ _ h]
    exact Or.inl (List.getElem_mem h)
  · exact Or.inr ⟨List.getD_eq_default _ _ h, h⟩

theorem mem_of_drop_eq {n : Nat} {before after : List Expr}
    (h : args.drop n = before ++ e :: after) : e ∈ args :=
  List.mem_of_mem_drop (h ▸ List.mem_append_right before List.mem_cons_self)

/-- An operand of a call is an argument that is written, or the mark for one that is left out. -/
theorem operand_of_unaryCall {f : UnaryFn}
    (h : frame.fill e = .unaryCall f (args.getD 0 missing) (args.drop 1)) :
    e ∈ args ∨ e = missing ∧ frame.LeavesOut := by
  cases frame with
  | unaryArgument f' extra =>
    cases h
    refine (getD_mem_or args 0).imp_right ?_
    rintro ⟨hmissing, hlength⟩
    exact ⟨hmissing, List.drop_eq_nil_of_le (by omega)⟩
  | unarySurplus f' arg before after =>
    obtain ⟨-, -, hextra⟩ := unaryCall.inj h
    exact Or.inl (mem_of_drop_eq hextra.symm)
  | _ => cases h

theorem operand_of_binaryCall {f : BinaryFn}
    (h : frame.fill e = .binaryCall f (args.getD 0 missing) (args.getD 1 missing) (args.drop 2)) :
    e ∈ args ∨ e = missing ∧ frame.LeavesOut := by
  cases frame with
  | binaryFirst f' rhs extra =>
    cases h
    refine (getD_mem_or args 0).imp_right ?_
    rintro ⟨hmissing, hlength⟩
    exact ⟨hmissing, List.getD_eq_default _ _ (by omega), List.drop_eq_nil_of_le (by omega)⟩
  | binarySecond f' lhs extra =>
    cases h
    refine (getD_mem_or args 1).imp_right ?_
    rintro ⟨hmissing, hlength⟩
    exact ⟨hmissing, List.drop_eq_nil_of_le (by omega)⟩
  | binarySurplus f' lhs rhs before after =>
    obtain ⟨-, -, -, hextra⟩ := binaryCall.inj h
    exact Or.inl (mem_of_drop_eq hextra.symm)
  | _ => cases h

/-- The operands of a shaped tree are shaped, or they are arguments that its call leaves out. -/
theorem IsShaped.of_fill (h : IsShaped (frame.fill e)) :
    IsShaped e ∨ e = missing ∧ frame.LeavesOut := by
  generalize hfill : frame.fill e = whole at h
  cases h with
  | number hv => cases frame <;> cases hfill
  | var => cases frame <;> cases hfill
  | constant c => cases frame <;> cases hfill
  | negate he =>
    cases frame with
    | negate =>
      cases hfill
      exact Or.inl he
    | _ => cases hfill
  | binary op hl hr =>
    cases frame with
    | binaryLeft op' rhs =>
      cases hfill
      exact Or.inl hl
    | binaryRight op' lhs =>
      cases hfill
      exact Or.inl hr
    | _ => cases hfill
  | update s place => cases frame <;> cases hfill
  | unaryCall f hargs => exact (operand_of_unaryCall hfill).imp_left (hargs e)
  | binaryCall f hargs => exact (operand_of_binaryCall hfill).imp_left (hargs e)
  | sequence hlength hitems =>
    cases frame with
    | item before after =>
      cases hfill
      exact Or.inl (hitems e (List.mem_append_right before List.mem_cons_self))
    | _ => cases hfill

/-- A number has no operands. -/
theorem eq_nil_of_inside_eq {v : Float} (h : inside frames e = .number v) :
    frames = [] ∧ e = .number v := by
  cases frames with
  | nil => exact ⟨rfl, h⟩
  | cons frame frames => cases frame <;> cases h

/-- Every node of a shaped tree is shaped, or it is an argument that its call leaves out. -/
theorem IsShaped.of_inside (h : IsShaped (inside frames e)) :
    IsShaped e ∨ e = missing ∧ ∃ frame ∈ frames.getLast?, frame.LeavesOut := by
  induction frames with
  | nil => exact Or.inl h
  | cons frame frames ih =>
    rcases h.of_fill with hinner | ⟨hmissing, hframe⟩
    · refine (ih hinner).imp_right ?_
      rintro ⟨rfl, last, hlast, hleaves⟩
      exact ⟨rfl, last, List.mem_getLast?_cons hlast, hleaves⟩
    · obtain ⟨rfl, rfl⟩ := eq_nil_of_inside_eq hmissing
      exact Or.inr ⟨rfl, frame, rfl, hframe⟩

end Nodes

section Values

theorem runAll?_some (h : ∀ e ∈ es, ∀ x, e.run? x = some (e.run x)) (v x : Float) :
    runAll? (some v) es x = some (some (runAll v es x).1, (runAll v es x).2) := by
  induction es generalizing v x with
  | nil => rfl
  | cons e es ih =>
    rw [runAll?, h e List.mem_cons_self x]
    exact ih (fun e he => h e (List.mem_cons_of_mem _ he)) _ _

/-- Of several expressions there is a last one. -/
theorem runAll?_of_ne_nil (hne : es ≠ []) (h : ∀ e ∈ es, ∀ x, e.run? x = some (e.run x))
    (x : Float) :
    runAll? none es x = some (some (runAll nan es x).1, (runAll nan es x).2) := by
  obtain ⟨e, es, rfl⟩ := List.exists_cons_of_ne_nil hne
  rw [runAll?, h e List.mem_cons_self x]
  exact runAll?_some (fun e he => h e (List.mem_cons_of_mem _ he)) _ _

/-- The value of surplus arguments is not asked for, so there may be none of them. -/
theorem exists_runAll? (h : ∀ e ∈ es, ∀ x, e.run? x = some (e.run x)) (x : Float) :
    ∃ v, runAll? none es x = some (v, (runAll nan es x).2) := by
  cases es with
  | nil => exact ⟨none, rfl⟩
  | cons e es => exact ⟨_, runAll?_of_ne_nil (List.cons_ne_nil e es) h x⟩

theorem run?_getD (h : ∀ a ∈ args, ∀ x, a.run? x = some (a.run x)) (i : Nat) (x : Float) :
    (args.getD i missing).run? x = some ((args.getD i missing).run x) := by
  rcases getD_mem_or args i with hmem | ⟨hmissing, -⟩
  · exact h _ hmem x
  · rw [hmissing]
    rfl

/-- A shaped tree can be evaluated without a value for a sequence that has no items. -/
theorem IsShaped.run?_eq (h : IsShaped e) (x : Float) : e.run? x = some (e.run x) := by
  induction h generalizing x with
  | number _ => rfl
  | var => rfl
  | constant c => rfl
  | negate _ ih =>
    rw [Expr.run?, ih]
    rfl
  | @binary lhs rhs op _ _ ihl ihr =>
    rw [Expr.run?, ihl]
    show (rhs.run? (lhs.run x).2 >>= _) = _
    rw [ihr]
    rfl
  | update s place => rfl
  | @unaryCall args f _ ih =>
    obtain ⟨v, hextra⟩ := exists_runAll? (fun e he => ih e (List.mem_of_mem_drop he))
      ((args.getD 0 missing).run x).2
    rw [Expr.run?, run?_getD ih]
    show (runAll? none (args.drop 1) _ >>= _) = _
    rw [hextra]
    rfl
  | @binaryCall args f _ ih =>
    let first := (args.getD 0 missing).run x
    let second := (args.getD 1 missing).run first.2
    obtain ⟨v, hextra⟩ := exists_runAll? (fun e he => ih e (List.mem_of_mem_drop he)) second.2
    rw [Expr.run?, run?_getD ih]
    show ((args.getD 1 missing).run? first.2 >>= _) = _
    rw [run?_getD ih]
    show (runAll? none (args.drop 2) second.2 >>= _) = _
    rw [hextra]
    rfl
  | @sequence items hlength _ ih =>
    have hne : items ≠ [] := List.ne_nil_of_length_pos (by omega)
    rw [Expr.run?, runAll?_of_ne_nil hne ih]
    rfl

/-- Of a tree that is not shaped, evaluation has to make up a value. -/
example (x : Float) : (sequence []).run? x = none ∧ (sequence []).run x = (nan, x) := ⟨rfl, rfl⟩

end Values

section Tokens

/-- Whether a token is no number below zero. -/
def TokenKind.IsUnsigned : TokenKind → Prop
  | .number v => 0 ≤ v
  | _ => True

def Unsigned (ts : List TokenKind) : Prop :=
  ∀ k ∈ ts, k.IsUnsigned

theorem Unsigned.left (h : Unsigned (ts ++ us)) : Unsigned ts :=
  (List.forall_mem_append.mp h).1

theorem Unsigned.right (h : Unsigned (ts ++ us)) : Unsigned us :=
  (List.forall_mem_append.mp h).2

theorem Unsigned.tail {k : TokenKind} (h : Unsigned (k :: ts)) : Unsigned ts :=
  (List.forall_mem_cons.mp h).2

/-- A sign is a token of its own, so it is no part of a number. -/
theorem IsLexeme.isUnsigned {k : TokenKind} {lexeme rest : List Char}
    (h : IsLexeme k lexeme rest) : k.IsUnsigned := by
  cases h with
  | number _ _ hv => exact Decimal.nonneg_of_read? hv
  | name _ _ _ => trivial
  | sign s _ => cases s <;> trivial
  | step s => trivial
  | mark hm =>
    simp only [marks, List.mem_cons, Prod.mk.injEq, List.not_mem_nil, or_false] at hm
    rcases hm with ⟨-, rfl⟩ | ⟨-, rfl⟩ | ⟨-, rfl⟩ | ⟨-, rfl⟩ | ⟨-, rfl⟩ <;> trivial

/-- A numeral has no sign of its own, so the lexer finds no number below zero. -/
theorem unsigned_of_tokens {text : List Char} {ts : List Token} (h : tokens text = .ok ts) :
    Unsigned (ts.map (·.kind)) := by
  obtain ⟨pieces, last, -, hcuts, -, rfl⟩ := tokensFrom_eq_ok_iff.mp h
  intro k hk
  obtain ⟨t, ht, rfl⟩ := List.mem_map.mp hk
  obtain ⟨before, lexeme, after, -, -, hlexeme⟩ := hcuts.exists_place ht
  exact hlexeme.isUnsigned

end Tokens

theorem isShaped_joined (he : IsShaped e) (hmore : ∀ term ∈ more, IsShaped term.2) :
    IsShaped (joined e more) := by
  induction more generalizing e with
  | nil => exact he
  | cons term more ih =>
    obtain ⟨hterm, hmore⟩ := List.forall_mem_cons.mp hmore
    exact ih (.binary term.1 he hterm) hmore

-- One case for each production: the tokens of a part are among those of the phrase, so their
-- numbers are not below zero either.
mutual

/-- What the grammar derives from numbers that are not below zero has the shape of a parsed tree. -/
theorem isShaped_of_isSequence {ts e} (h : IsSequence ts e) (hts : Unsigned ts) :
    IsShaped e := by
  match h with
  | .single hs => exact isShaped_of_isSum hs hts
  | .several hs hi hne =>
    have hfirst := isShaped_of_isSum hs hts.left
    have hmore := isShaped_of_isItems hi hts.right
    refine .sequence ?_ (List.forall_mem_cons.mpr ⟨hfirst, hmore⟩)
    exact Nat.succ_le_succ (List.length_pos_of_ne_nil hne)

theorem isShaped_of_isItems {ts es} (h : IsItems ts es) (hts : Unsigned ts) :
    ∀ e ∈ es, IsShaped e := by
  match h with
  | .nil => exact List.forall_mem_nil _
  | .cons hs hi =>
    have hfirst := isShaped_of_isSum hs hts.left.tail
    exact List.forall_mem_cons.mpr ⟨hfirst, isShaped_of_isItems hi hts.right⟩

theorem isShaped_of_isSum {ts e} (h : IsSum ts e) (hts : Unsigned ts) : IsShaped e := by
  match h with
  | .mk hp ht =>
    exact isShaped_joined (isShaped_of_isProduct hp hts.left) (isShaped_of_isTerms ht hts.right)

theorem isShaped_of_isTerms {ts more} (h : IsTerms ts more) (hts : Unsigned ts) :
    ∀ term ∈ more, IsShaped term.2 := by
  match h with
  | .nil => exact List.forall_mem_nil _
  | .add hp ht =>
    have hterm := isShaped_of_isProduct hp hts.left.tail
    exact List.forall_mem_cons.mpr ⟨hterm, isShaped_of_isTerms ht hts.right⟩
  | .sub hp ht =>
    have hterm := isShaped_of_isProduct hp hts.left.tail
    exact List.forall_mem_cons.mpr ⟨hterm, isShaped_of_isTerms ht hts.right⟩

theorem isShaped_of_isProduct {ts e} (h : IsProduct ts e) (hts : Unsigned ts) : IsShaped e := by
  match h with
  | .mk hs hf =>
    exact isShaped_joined (isShaped_of_isSigned hs hts.left) (isShaped_of_isFactors hf hts.right)

theorem isShaped_of_isFactors {ts more} (h : IsFactors ts more) (hts : Unsigned ts) :
    ∀ term ∈ more, IsShaped term.2 := by
  match h with
  | .nil => exact List.forall_mem_nil _
  | .mul hs hf =>
    have hfactor := isShaped_of_isSigned hs hts.left.tail
    exact List.forall_mem_cons.mpr ⟨hfactor, isShaped_of_isFactors hf hts.right⟩
  | .div hs hf =>
    have hfactor := isShaped_of_isSigned hs hts.left.tail
    exact List.forall_mem_cons.mpr ⟨hfactor, isShaped_of_isFactors hf hts.right⟩

theorem isShaped_of_isSigned {ts e} (h : IsSigned ts e) (hts : Unsigned ts) : IsShaped e := by
  match h with
  | .plus hs => exact isShaped_of_isSigned hs hts.tail
  | .minus hs => exact .negate (isShaped_of_isSigned hs hts.tail)
  | .step s _ => exact .update s .before
  | .stepped hs => exact isShaped_of_isStepped hs hts

theorem isShaped_of_isStepped {ts e} (h : IsStepped ts e) (hts : Unsigned ts) :
    IsShaped e := by
  match h with
  | .plain hp => exact isShaped_of_isPrimary hp hts
  | .step s _ => exact .update s .after

theorem isShaped_of_isPrimary {ts e} (h : IsPrimary ts e) (hts : Unsigned ts) :
    IsShaped e := by
  match h with
  | .number v => exact .number (hts _ List.mem_cons_self)
  | .var => exact .var
  | .constant _ => exact .constant _
  | .unaryCall _ ha => exact .unaryCall _ (isShaped_of_isArguments ha hts.left.tail.tail)
  | .binaryCall _ ha => exact .binaryCall _ (isShaped_of_isArguments ha hts.left.tail.tail)
  | .group hs => exact isShaped_of_isSequence hs hts.left.tail

theorem isShaped_of_isArguments {ts es} (h : IsArguments ts es) (hts : Unsigned ts) :
    ∀ e ∈ es, IsShaped e := by
  match h with
  | .none => exact List.forall_mem_nil _
  | .some hs hi =>
    have hfirst := isShaped_of_isSum hs hts.left
    exact List.forall_mem_cons.mpr ⟨hfirst, isShaped_of_isItems hi hts.right⟩
  | .trailing hs hi =>
    have hfirst := isShaped_of_isSum hs hts.left.left
    exact List.forall_mem_cons.mpr ⟨hfirst, isShaped_of_isItems hi hts.left.right⟩

end

theorem isShaped_of_parse {text : List Char} (h : parse text = .ok e) : IsShaped e := by
  obtain ⟨ts, ht, -⟩ := Parser.parse_eq_ok.mp h
  exact isShaped_of_isSequence (isSequence_of_parse ht h) (unsigned_of_tokens ht)

/-- In the tree of a text every sequence has at least two items, so evaluation asks for no value of
one without items. A leaf that is not a number, although it stands for one, is an argument that the
call above it leaves out: the argument of a function of one, the second or both of a function of
two, and no surplus arguments are behind it. Every other leaf of that kind is a number and not below
zero. -/
theorem parsed_shape (text : List Char) (e : Expr) (h : parse text = .ok e) :
    (∀ frames items, e = inside frames (.sequence items) → 2 ≤ items.length) ∧
    (∀ x, e.run? x = some (e.run x)) ∧
    ∀ frames v, e = inside frames (.number v) →
      (v.isNaN = true → ∃ frame ∈ frames.getLast?, frame.LeavesOut) ∧
      (v.isNaN = false → 0 ≤ v) := by
  have hshaped := isShaped_of_parse h
  refine ⟨?_, hshaped.run?_eq, ?_⟩
  · rintro frames items rfl
    rcases hshaped.of_inside with hsequence | ⟨hmissing, -⟩
    · cases hsequence with
      | sequence hlength _ => exact hlength
    · cases hmissing
  · rintro frames v rfl
    rcases hshaped.of_inside with hnumber | ⟨hmissing, hleaves⟩
    · cases hnumber with
      | number hv =>
        refine ⟨?_, fun _ => hv⟩
        intro hnan
        cases hnan.symm.trans (Decimal.not_isNaN_of_nonneg hv)
    · refine ⟨fun _ => hleaves, ?_⟩
      intro hnumber
      obtain rfl := number.inj hmissing
      have hnan : nan.isNaN = true := by decide
      cases hnan.symm.trans hnumber

/-- Of two arguments only the first is written, in a sequence of two items. -/
theorem parsed_shape_left_out :
    parse "pow(1.5),x".toList =
        .ok (.sequence [.binaryCall .pow (.number 1.5) missing [], .var]) ∧
      2 ≤ [binaryCall .pow (.number 1.5) missing [], .var].length ∧
      (∃ frame ∈ [Frame.item [] [.var], .binarySecond .pow (.number 1.5) []].getLast?,
        frame.LeavesOut) ∧
      (0 : Float) ≤ 1.5 ∧
      ∀ x, (sequence [.binaryCall .pow (.number 1.5) missing [], .var]).run? x =
        some ((sequence [.binaryCall .pow (.number 1.5) missing [], .var]).run x) := by
  have hread : Decimal.read? ['1', '.', '5'] = some 1.5 := rfl
  have ht : tokens "pow(1.5),x".toList = .ok [⟨.name "pow", 0⟩, ⟨.opening, 3⟩, ⟨.number 1.5, 4⟩,
      ⟨.closing, 7⟩, ⟨.comma, 8⟩, ⟨.name "x", 9⟩] := by
    simp [tokens, lexeme, isNumeral, isNameStart, isNameRest, Text.isBlank, hread]
    rfl
  have harg : IsSum [.number 1.5] (.number 1.5) :=
    .mk (.mk (.stepped (.plain (.number 1.5))) .nil) .nil
  have hpow : IsSum [.name "pow", .opening, .number 1.5, .closing]
      (.binaryCall .pow (.number 1.5) missing []) :=
    .mk (.mk (.stepped (.plain (.binaryCall rfl (.some harg .nil)))) .nil) .nil
  have hx : IsSum [.name "x"] .var := .mk (.mk (.stepped (.plain .var)) .nil) .nil
  have hp := parse_of_isSequence ht (.several hpow (.cons hx .nil) (List.cons_ne_nil _ _))
  obtain ⟨hitems, hrun, hnumbers⟩ := parsed_shape _ _ hp
  obtain ⟨hleft, -⟩ := hnumbers [.item [] [.var], .binarySecond .pow (.number 1.5) []] nan rfl
  obtain ⟨-, hwritten⟩ := hnumbers [.item [] [.var], .binaryFirst .pow missing []] 1.5 rfl
  exact ⟨hp, hitems [] _ rfl, hleft (by decide), hwritten (by decide), hrun⟩

end SparkTrail.Expr
