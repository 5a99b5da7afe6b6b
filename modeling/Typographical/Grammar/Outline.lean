import Typographical.Formula.Position
import Typographical.Text.SourceMap

/-!
# Outlines

An outline has the shape of a formula and holds, for each occurrence of a
subformula, the span that it was read from.
-/

namespace Typographical

/-- Spans in the shape of a formula. -/
inductive Outline where
  | leaf (span : Span)
  | unary (span : Span) (body : Outline)
  | binary (span : Span) (left right : Outline)
  deriving DecidableEq

namespace Outline

def span : Outline → Span
  | leaf s => s
  | unary s _ => s
  | binary s _ _ => s

def at? : Outline → Position → Option Span
  | o, [] => some o.span
  | unary _ o, .body :: p => o.at? p
  | binary _ l _, .left :: p => l.at? p
  | binary _ _ r, .right :: p => r.at? p
  | _, _ :: _ => none

/-- All spans with their positions, a formula before its subformulas. -/
def entries : Outline → List (Position × Span)
  | leaf s => [([], s)]
  | unary s o => ([], s) :: o.entries.map (fun e => (.body :: e.1, e.2))
  | binary s l r =>
    ([], s) :: (l.entries.map (fun e => (.left :: e.1, e.2)) ++
      r.entries.map (fun e => (.right :: e.1, e.2)))

def sourceMap (o : Outline) (file : SourceFile) : SourceMap Position := ⟨file, o.entries⟩

end Outline

end Typographical
