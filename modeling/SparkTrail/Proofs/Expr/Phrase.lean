import SparkTrail.Proofs.Expr.Grammar

/-!
# Beginnings of expressions

The grammar once more, without the trees and with steps before and behind any operand: a
context-free grammar over token kinds. The expressions that have a tree are among its sentences, and
a list of kinds is viable where a sentence begins with it. Lists of items between separators occur
on three ranks, which differ in their items and separators only.
-/
namespace SparkTrail.Expr.Grammar

inductive Rank where
  | sequence
  | sum
  | product

/-- The phrases of the grammar: a list, what follows the first item of a list, an operand with the
signs and steps before it, one with the step behind it, one by itself, and the arguments of a
call. -/
inductive Phrase where
  | list (r : Rank)
  | more (r : Rank)
  | signed
  | stepped
  | primary
  | arguments

abbrev Phrase.expression : Phrase :=
  .list .sequence

def Rank.item : Rank → Phrase
  | .sequence => .list .sum
  | .sum => .list .product
  | .product => .signed

def Rank.separators : Rank → List TokenKind
  | .sequence => [.comma]
  | .sum => [.plus, .minus]
  | .product => [.star, .slash]

/-- Whether a token can stand before an operand and belong to it. -/
def isSign : TokenKind → Bool
  | .plus | .minus | .step _ => true
  | _ => false

/-- Which token kinds form a phrase. The names that can stand in one are those of the variable, the
constants and the functions. -/
inductive Derives : Phrase → List TokenKind → Prop
  | list {r us vs} : Derives r.item us → Derives (.more r) vs → Derives (.list r) (us ++ vs)
  | done {r} : Derives (.more r) []
  | more {r k us vs} : k ∈ r.separators → Derives r.item us → Derives (.more r) vs →
      Derives (.more r) (k :: us ++ vs)
  | sign {k us} : isSign k = true → Derives .signed us → Derives .signed (k :: us)
  | stepped {us} : Derives .stepped us → Derives .signed us
  | plain {us} : Derives .primary us → Derives .stepped us
  | step {us} (s : Step) : Derives .primary us → Derives .stepped (us ++ [.step s])
  | number (v : Float) : Derives .primary [.number v]
  | var : Derives .primary [.name "x"]
  | constant {name c} :
      Builtin.lookup? name = some (.constant c) → Derives .primary [.name name]
  | call {name f us} : Builtin.lookup? name = some (.function f) → Derives .arguments us →
      Derives .primary (.name name :: .opening :: us ++ [.closing])
  | group {us} : Derives (.list .sequence) us → Derives .primary (.opening :: us ++ [.closing])
  | none : Derives .arguments []
  | some {us vs} : Derives (.list .sum) us → Derives (.more .sequence) vs →
      Derives .arguments (us ++ vs)
  | trailing {us vs} : Derives (.list .sum) us → Derives (.more .sequence) vs →
      Derives .arguments (us ++ vs ++ [.comma])

/-- Some phrase of this kind begins with these tokens. -/
def Viable (phrase : Phrase) (us : List TokenKind) : Prop :=
  ∃ more, Derives phrase (us ++ more)

variable {r : Rank} {k : TokenKind} {us vs : List TokenKind} {phrase : Phrase}

theorem Derives.viable (h : Derives phrase us) : Viable phrase us :=
  ⟨[], by rwa [List.append_nil]⟩

theorem derives_list_of_item (h : Derives r.item us) : Derives (.list r) us := by
  have hlist := Derives.list h .done
  rwa [List.append_nil] at hlist

/-- Behind a separator stands a list of the same rank. -/
theorem derives_more_of_list (hk : k ∈ r.separators) (h : Derives (.list r) us) :
    Derives (.more r) (k :: us) := by
  cases h with
  | list hitem hmore => exact .more hk hitem hmore

/-- Arguments without a comma at their end are a sequence. -/
theorem derives_arguments_of_sequence (h : Derives (.list .sequence) us) :
    Derives .arguments us := by
  cases h with
  | list hsum hmore => exact .some hsum hmore

/-- An argument in front of arguments: where there are none behind it, its comma trails. -/
theorem derives_arguments_cons (h : Derives (.list .sum) us) (h' : Derives .arguments vs) :
    Derives .arguments (us ++ .comma :: vs) := by
  have hcomma : TokenKind.comma ∈ Rank.sequence.separators := List.mem_singleton_self _
  cases h' with
  | none => simpa using Derives.trailing h .done
  | some hsum hmore => exact .some h (.more hcomma hsum hmore)
  | trailing hsum hmore => simpa using Derives.trailing h (.more hcomma hsum hmore)

theorem Viable.first (h : Viable r.item us) : Viable (.list r) us := by
  obtain ⟨more, hd⟩ := h
  exact ⟨more, derives_list_of_item hd⟩

theorem Viable.further (h : Derives r.item us) (h' : Viable (.more r) vs) :
    Viable (.list r) (us ++ vs) := by
  obtain ⟨more, hd⟩ := h'
  exact ⟨more, by simpa using Derives.list h hd⟩

theorem Viable.separator (hk : k ∈ r.separators) (h : Viable (.list r) us) :
    Viable (.more r) (k :: us) := by
  obtain ⟨more, hd⟩ := h
  exact ⟨more, derives_more_of_list hk hd⟩

theorem Viable.sign (hk : isSign k = true) (h : Viable .signed us) : Viable .signed (k :: us) := by
  obtain ⟨more, hd⟩ := h
  exact ⟨more, .sign hk hd⟩

theorem Viable.signed (h : Viable .primary us) : Viable .signed us := by
  obtain ⟨more, hd⟩ := h
  exact ⟨more, .stepped (.plain hd)⟩

theorem Viable.group (h : Viable (.list .sequence) us) : Viable .primary (.opening :: us) := by
  obtain ⟨more, hd⟩ := h
  exact ⟨more ++ [.closing], by simpa using Derives.group hd⟩

theorem Viable.call {name : String} {f : Function}
    (hf : Builtin.lookup? name = some (.function f)) (h : Viable .arguments us) :
    Viable .primary (.name name :: .opening :: us) := by
  obtain ⟨more, hd⟩ := h
  exact ⟨more ++ [.closing], by simpa using Derives.call hf hd⟩

theorem Viable.argument (h : Viable (.list .sum) us) : Viable .arguments us := by
  obtain ⟨more, hd⟩ := h
  exact ⟨more, derives_arguments_of_sequence (derives_list_of_item hd)⟩

theorem Viable.arguments (h : Derives (.list .sum) us) (h' : Viable .arguments vs) :
    Viable .arguments (us ++ .comma :: vs) := by
  obtain ⟨more, hd⟩ := h'
  exact ⟨more, by simpa using derives_arguments_cons h hd⟩

-- One case for each production, as in the grammar with trees.
mutual

theorem derives_of_isSequence {us e} (h : IsSequence us e) : Derives (.list .sequence) us := by
  match h with
  | .single hs => exact derives_list_of_item (derives_of_isSum hs)
  | .several hs hi _ => exact .list (derives_of_isSum hs) (derives_of_isItems hi)

theorem derives_of_isItems {us es} (h : IsItems us es) : Derives (.more .sequence) us := by
  match h with
  | .nil => exact .done
  | .cons hs hi =>
    exact .more List.mem_cons_self (derives_of_isSum hs) (derives_of_isItems hi)

theorem derives_of_isSum {us e} (h : IsSum us e) : Derives (.list .sum) us := by
  match h with
  | .mk hp ht => exact .list (derives_of_isProduct hp) (derives_of_isTerms ht)

theorem derives_of_isTerms {us more} (h : IsTerms us more) : Derives (.more .sum) us := by
  match h with
  | .nil => exact .done
  | .add hp ht =>
    exact .more List.mem_cons_self (derives_of_isProduct hp) (derives_of_isTerms ht)
  | .sub hp ht =>
    exact .more (List.mem_cons_of_mem _ List.mem_cons_self) (derives_of_isProduct hp)
      (derives_of_isTerms ht)

theorem derives_of_isProduct {us e} (h : IsProduct us e) : Derives (.list .product) us := by
  match h with
  | .mk hs hf => exact .list (derives_of_isSigned hs) (derives_of_isFactors hf)

theorem derives_of_isFactors {us more} (h : IsFactors us more) : Derives (.more .product) us := by
  match h with
  | .nil => exact .done
  | .mul hs hf =>
    exact .more List.mem_cons_self (derives_of_isSigned hs) (derives_of_isFactors hf)
  | .div hs hf =>
    exact .more (List.mem_cons_of_mem _ List.mem_cons_self) (derives_of_isSigned hs)
      (derives_of_isFactors hf)

theorem derives_of_isSigned {us e} (h : IsSigned us e) : Derives .signed us := by
  match h with
  | .plus hs => exact .sign rfl (derives_of_isSigned hs)
  | .minus hs => exact .sign rfl (derives_of_isSigned hs)
  | .step _ hs => exact .sign rfl (derives_of_isSigned hs)
  | .stepped hs => exact .stepped (derives_of_isStepped hs)

theorem derives_of_isStepped {us e} (h : IsStepped us e) : Derives .stepped us := by
  match h with
  | .plain hp => exact .plain (derives_of_isPrimary hp)
  | .step s hp => exact .step s (derives_of_isPrimary hp)

theorem derives_of_isPrimary {us e} (h : IsPrimary us e) : Derives .primary us := by
  match h with
  | .number v => exact .number v
  | .var => exact .var
  | .constant hc => exact .constant hc
  | .unaryCall hf ha => exact .call hf (derives_of_isArguments ha)
  | .binaryCall hf ha => exact .call hf (derives_of_isArguments ha)
  | .group hs => exact .group (derives_of_isSequence hs)

theorem derives_of_isArguments {us es} (h : IsArguments us es) : Derives .arguments us := by
  match h with
  | .none => exact .none
  | .some hs hi => exact .some (derives_of_isSum hs) (derives_of_isItems hi)
  | .trailing hs hi => exact .trailing (derives_of_isSum hs) (derives_of_isItems hi)

end

end SparkTrail.Expr.Grammar
