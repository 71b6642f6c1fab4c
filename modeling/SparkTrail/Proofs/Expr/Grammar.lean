import SparkTrail.Expr.Basic
import SparkTrail.Expr.Token

/-!
# The grammar of path expressions

Which token kinds form an expression, and which expression they form:

```text
sequence  := sum (',' sum)*
sum       := product (('+' | '-') product)*
product   := signed (('*' | '/') signed)*
signed    := ('+' | '-') signed | ('++' | '--') signed | stepped
stepped   := primary ('++' | '--')?
primary   := number | 'x' | constant | function '(' arguments ')' | '(' sequence ')'
arguments := (sum (',' sum)* ','?)?
```

Each production is a constructor, and the second index is the tree that the production gives.
Nothing here knows how a text is read: the relation neither looks ahead nor prefers one production
to another, so whether a list of kinds has one tree is a statement about it and not part of it.
-/
namespace SparkTrail.Expr.Grammar

/-- Operands joined by operators of one rank, the leftmost operator applied first. -/
def joined (first : Expr) (more : List (Operator × Expr)) : Expr :=
  more.foldl (fun lhs term => .binary term.1 lhs term.2) first

mutual

/-- `sum (',' sum)*`. One item is itself; only several are a sequence. -/
inductive IsSequence : List TokenKind → Expr → Prop
  | single {ts e} : IsSum ts e → IsSequence ts e
  | several {ts us e es} :
      IsSum ts e → IsItems us es → es ≠ [] → IsSequence (ts ++ us) (.sequence (e :: es))

/-- `(',' sum)*` -/
inductive IsItems : List TokenKind → List Expr → Prop
  | nil : IsItems [] []
  | cons {ts us e es} : IsSum ts e → IsItems us es → IsItems (.comma :: ts ++ us) (e :: es)

/-- `product (('+' | '-') product)*` -/
inductive IsSum : List TokenKind → Expr → Prop
  | mk {ts us e more} : IsProduct ts e → IsTerms us more → IsSum (ts ++ us) (joined e more)

/-- `(('+' | '-') product)*` -/
inductive IsTerms : List TokenKind → List (Operator × Expr) → Prop
  | nil : IsTerms [] []
  | add {ts us e more} :
      IsProduct ts e → IsTerms us more → IsTerms (.plus :: ts ++ us) ((.add, e) :: more)
  | sub {ts us e more} :
      IsProduct ts e → IsTerms us more → IsTerms (.minus :: ts ++ us) ((.sub, e) :: more)

/-- `signed (('*' | '/') signed)*` -/
inductive IsProduct : List TokenKind → Expr → Prop
  | mk {ts us e more} : IsSigned ts e → IsFactors us more → IsProduct (ts ++ us) (joined e more)

/-- `(('*' | '/') signed)*` -/
inductive IsFactors : List TokenKind → List (Operator × Expr) → Prop
  | nil : IsFactors [] []
  | mul {ts us e more} :
      IsSigned ts e → IsFactors us more → IsFactors (.star :: ts ++ us) ((.mul, e) :: more)
  | div {ts us e more} :
      IsSigned ts e → IsFactors us more → IsFactors (.slash :: ts ++ us) ((.div, e) :: more)

/-- `('+' | '-') signed | ('++' | '--') signed | stepped`. A plus sign gives its operand's tree, and
only the variable can be stepped. -/
inductive IsSigned : List TokenKind → Expr → Prop
  | plus {ts e} : IsSigned ts e → IsSigned (.plus :: ts) e
  | minus {ts e} : IsSigned ts e → IsSigned (.minus :: ts) (.negate e)
  | step {ts} (s : Step) : IsSigned ts .var → IsSigned (.step s :: ts) (.update s .before)
  | stepped {ts e} : IsStepped ts e → IsSigned ts e

/-- `primary ('++' | '--')?` -/
inductive IsStepped : List TokenKind → Expr → Prop
  | plain {ts e} : IsPrimary ts e → IsStepped ts e
  | step {ts} (s : Step) : IsPrimary ts .var → IsStepped (ts ++ [.step s]) (.update s .after)

/-- `number | 'x' | constant | function '(' arguments ')' | '(' sequence ')'`. A call takes its
first arguments in order, not a number in place of each that is not written, and keeps the
others. -/
inductive IsPrimary : List TokenKind → Expr → Prop
  | number (v : Float) : IsPrimary [.number v] (.number v)
  | var : IsPrimary [.name "x"] .var
  | constant {name c} :
      Builtin.lookup? name = some (.constant c) → IsPrimary [.name name] (.constant c)
  | unaryCall {name f ts args} :
      Builtin.lookup? name = some (.function (.unary f)) → IsArguments ts args →
      IsPrimary (.name name :: .opening :: ts ++ [.closing])
        (.unaryCall f (args.getD 0 (.number nan)) (args.drop 1))
  | binaryCall {name f ts args} :
      Builtin.lookup? name = some (.function (.binary f)) → IsArguments ts args →
      IsPrimary (.name name :: .opening :: ts ++ [.closing])
        (.binaryCall f (args.getD 0 (.number nan)) (args.getD 1 (.number nan)) (args.drop 2))
  | group {ts e} : IsSequence ts e → IsPrimary (.opening :: ts ++ [.closing]) e

/-- `(sum (',' sum)* ','?)?` -/
inductive IsArguments : List TokenKind → List Expr → Prop
  | none : IsArguments [] []
  | some {ts us e es} : IsSum ts e → IsItems us es → IsArguments (ts ++ us) (e :: es)
  | trailing {ts us e es} :
      IsSum ts e → IsItems us es → IsArguments (ts ++ us ++ [.comma]) (e :: es)

end

end SparkTrail.Expr.Grammar
